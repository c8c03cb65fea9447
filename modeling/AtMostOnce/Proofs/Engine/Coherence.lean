/-
When a shared cache agrees with the ledger.

A call changes the ledger first and the cache afterwards, and a call that meets a record
keeps it some time after it has read it.  When no call is under way all debts to the
cache are paid, so whatever has changed the ledger since a record was kept has changed
the cache as well.  What remains is a record that was kept too late: another call has
completed or removed the key, and updated the cache, after the record was taken from the
ledger and before it was kept (`KeptLate`).  Nothing guards against that, and nothing
else can go wrong (`cache_agrees_iff`).
-/
import AtMostOnce.Proofs.Engine.Debts
import AtMostOnce.Proofs.Engine.Provenance

namespace AtMostOnce.Engine

/-- Is the change a completion or a removal? -/
def Change.isFinal : Change → Bool
  | .claimed _ => false
  | .completed _ => true
  | .removed _ => true

/-- What a change makes a call owe its cache. -/
def Change.debt? : Change → Option Debt
  | .claimed _ => none
  | .completed r => some (.keep r)
  | .removed k => some (.forget k)

theorem Change.key_of_left? {c : Change} {r : Record} (h : c.left? = some r) : r.key = c.key := by
  cases c with
  | removed k => cases h
  | _ => cases h; rfl

/-- The key under which a question updates the cache. -/
def Request.updates? : Request → Option Key
  | .keep r => some r.key
  | .forget k => some k
  | _ => none

/-- A debt is left only by paying it. -/
theorem Debt.paid {α : Type} {d : Debt} {q : Request} {a : Answer α q}
    (hall : Debt.allows (some d) q) (h : Debt.after (some d) q a ≠ some d) :
    q.updates? = some d.key := by
  unfold Debt.after at h
  split at h
  · cases hall
  · cases hall
  · split at h
    · rename_i hd
      rw [Option.some.inj hd]
      rfl
    · exact absurd rfl h
  · split at h
    · rename_i hd
      rw [Option.some.inj hd]
      rfl
    · exact absurd rfl h
  · exact absurd rfl h

/-- A record in a cache was there before a question, which then does not update its key, or it is
kept now. -/
theorem Site.mem_reply_cache {κ α : Type} [DecidableEq κ] {s : Site κ} {c : κ}
    {outcome : Except Failure α} {q : Request} {r : Record}
    (h : r ∈ ((s.reply c outcome q).2.caches c).records)
    (taken : ∀ r', q = .keep r' → r'.key = r.key →
      r'.status = .completed ∧ r'.isExpired (secondsOf s.now) = false) :
    q = .keep r ∨ (r ∈ (s.caches c).records ∧ q.updates? ≠ some r.key) := by
  have here : ∀ d, r ∈ ((s.setCache c d).caches c).records → r ∈ d.records := by
    intro d hr
    change r ∈ (Function.update s.caches c d c).records at hr
    rwa [Function.update_self] at hr
  cases q with
  | cached k => exact .inr ⟨Cache.mem_get (here _ h), nofun⟩
  | keep r' =>
    by_cases hk : r'.key = r.key
    · obtain ⟨hst, hforce⟩ := taken r' rfl hk
      have hmem := here _ h
      rw [Cache.put_eq hst hforce] at hmem
      rcases Cache.mem_push hmem with rfl | ⟨-, hne⟩
      · exact .inl rfl
      · exact absurd hk.symm hne
    · rcases Cache.mem_put (here _ h) with ⟨rfl, -⟩ | hmem
      · exact absurd rfl hk
      · exact .inr ⟨hmem, fun heq => hk (Option.some.inj heq)⟩
  | forget k =>
    have hmem := here _ h
    exact .inr ⟨Cache.mem_erase hmem,
      fun heq => Cache.key_of_mem_erase hmem (Option.some.inj heq).symm⟩
  | _ => exact .inr ⟨h, nofun⟩

namespace Interleaved

variable {κ α ι : Type} [DecidableEq κ] [DecidableEq ι] {calls : ι → Call κ α}
  (x : Interleaved calls)

/-- A call updates what its cache has under a key. -/
def Updates (n : Nat) (i : ι) (k : Key) : Prop :=
  ∃ q a, x.Says n i q a ∧ q.updates? = some k

/-- Every call is done or has not begun. -/
def Quiet (n : Nat) : Prop :=
  ∀ i, (∀ m < n, ∀ q a, ¬ x.Says m i q a) ∨ ∃ b, x.talk n i = .done b

/-- A call begins at some time at the earliest, and for a while nobody else asks anything. -/
def Alone (i : ι) (m n : Nat) : Prop :=
  (∀ l < m, ∀ q a, ¬ x.Says l i q a) ∧ ∀ l < n, m ≤ l → ∀ j q a, x.Says l j q a → j = i

/-- What a cache would answer for a key before the `n`-th event. -/
def cached? (c : κ) (n : Nat) (k : Key) : Option Record :=
  (((x.state n).caches c).get (secondsOf (x.state n).now) k).1

/-- A call has a record from the ledger: it has read it, or it has completed it there. -/
def Took (n : Nat) (i : ι) (k : Key) (r : Record) : Prop :=
  x.Says n i (.ledger (.find k)) (.ok r) ∨ (x.Changes n i (.completed r) ∧ r.key = k)

/-- The calls share one cache, which agrees with the ledger about the key at the beginning, and no
completed record of the key expires. -/
structure Shares (c : κ) (k : Key) : Prop where
  caches : ∀ i, (calls i).engine.caches = true
  shared : ∀ i, (calls i).cache = c
  keyed : ∀ k r, x.stored 0 k = some r → r.key = k
  agrees : ∀ r ∈ ((x.state 0).caches c).records, r.key = k →
    r.status = .completed ∧ x.stored 0 k = some r
  inForce : ∀ l m r, l ≤ m → m ≤ x.length → x.stored l k = some r → r.status = .completed →
    r.isExpired (secondsOf (x.state m).now) = false

/-- No call updates the cache under the key strictly between two events. -/
def Unupdated (k : Key) (m n : Nat) : Prop := ∀ l < n, m < l → ∀ j, ¬ x.Updates l j k

/-- The last update of the cache under the key was to keep a record that the ledger no longer had:
since it was taken from there, another call has completed or removed the key and updated the
cache. -/
def KeptLate (k : Key) (r : Record) (n : Nat) : Prop :=
  ∃ i l t, x.Took l i k r ∧ x.Says t i (.keep r) () ∧ t < n ∧ x.Unupdated k t n ∧
    x.stored t k ≠ some r ∧
    ∃ j s s', j ≠ i ∧ l < s ∧ s < s' ∧ s' < t ∧
      (∃ c, x.Changes s j c ∧ c.key = k ∧ c.isFinal = true) ∧ x.Updates s' j k

variable {x} {l m n t : Nat} {i j : ι} {c : κ} {d : Change} {k : Key} {r : Record}

/-- The record of a key that an event gives, and to whom. -/
def given? : Execution.Event ι Request (Answer α) → Option (ι × Key × Record)
  | .exchange i (.cached k) (some r) => some (i, k, r)
  | .exchange i (.ledger (.find k)) (.ok r) => some (i, k, r)
  | _ => none

theorem given_of_event (hn : n < x.length) (h : given? (x.event n) = some (i, k, r)) :
    x.Given n i k r := by
  unfold given? at h
  split at h
  · rename_i hcached
    cases h
    exact .inl ⟨hn, hcached⟩
  · rename_i hfound
    cases h
    exact .inr ⟨hn, hfound⟩
  · cases h

/-! ### Debts -/

theorem Changes.owes (h : x.Changes n i d) {debt : Debt} (hd : d.debt? = some debt) :
    x.phase Debt.protocol none i (n + 1) = some debt := by
  rw [Execution.Says.phase_succ h]
  cases d with
  | claimed r => cases hd
  | completed r => exact hd
  | removed k => exact hd

/-- What a call owes its cache is paid before no call is under way. -/
theorem Changes.pays (h : x.Changes m j d) (hfinal : d.isFinal = true)
    (caches : (calls j).engine.caches = true) (hmn : m < n) (hn : n ≤ x.length)
    (quiet : x.Quiet n) : ∃ l, m < l ∧ l < n ∧ x.Updates l j d.key := by
  obtain ⟨debt, hdebt, hkey⟩ : ∃ debt, d.debt? = some debt ∧ debt.key = d.key := by
    cases d with
    | claimed r => cases hfinal
    | completed r => exact ⟨_, rfl, rfl⟩
    | removed k => exact ⟨_, rfl, rfl⟩
  have hfree : x.phase Debt.protocol none j n = none := by
    have hf := Execution.follows_phase (x := x) (settles_talk caches) (fun _ _ _ => honest) n hn
    rcases quiet j with hidle | ⟨b, hdone⟩
    · exact absurd h (hidle m hmn _ _)
    · rw [hdone] at hf
      exact hf
  obtain ⟨l, hml, hln, q, a, hs, hin, hout⟩ :=
    Execution.phase_leaves (p := fun s => s = some debt) (h.owes hdebt)
      (by rw [hfree]; nofun) hmn hn
  have hall := Execution.Says.allowed hs (settles_talk caches) fun _ _ _ => honest
  rw [hin] at hall hout
  exact ⟨l, hml, hln, q, a, hs, by rw [← hkey]; exact Debt.paid hall hout⟩

/-! ### The ledger -/

theorem stored_key (keyed : ∀ k r, x.stored 0 k = some r → r.key = k) (hn : n ≤ x.length)
    (h : x.stored n k = some r) : r.key = k := by
  induction n with
  | zero => exact keyed k r h
  | succ n ih =>
    rcases stored_succ_cases (Nat.lt_of_succ_le hn) k with ⟨i, d, -, hk, hs⟩ | hs
    · rw [← hk]
      exact Change.key_of_left? (hs.symm.trans h)
    · exact ih (by omega) (hs.symm.trans h)

/-- What holds of the record under a key and later does not is ended by a change of the key. -/
theorem stored_leaves {p : Option Record → Prop} (h : p (x.stored m k)) (hnot : ¬ p (x.stored n k))
    (hmn : m ≤ n) (hn : n ≤ x.length) :
    ∃ l, m ≤ l ∧ l < n ∧ ∃ j d, x.Changes l j d ∧ d.key = k ∧ p (x.stored l k) ∧ ¬ p d.left? := by
  induction n, hmn using Nat.le_induction with
  | base => exact absurd h hnot
  | succ n hmn ih =>
    by_cases hp : p (x.stored n k)
    · rcases stored_succ_cases (Nat.lt_of_succ_le hn) k with ⟨j, d, hd, hk, hs⟩ | hs
      · rw [hs] at hnot
        exact ⟨n, hmn, Nat.lt_succ_self n, j, d, hd, hk, hp, hnot⟩
      · rw [hs] at hnot
        exact absurd hp hnot
    · obtain ⟨l, hml, hln, hl⟩ := ih hp (by omega)
      exact ⟨l, hml, by omega, hl⟩

theorem Took.stored (h : x.Took l i k r) : x.stored (l + 1) k = some r := by
  rcases h with h | ⟨h, rfl⟩
  · rcases stored_succ_cases h.1 k with ⟨j, d, hd, -, -⟩ | hs
    · -- a search is no change
      obtain ⟨-, hq, -⟩ := Execution.Says.unique h hd
      cases d <;> cases hq
    · rw [hs]
      exact found h
  · exact h.stored_key

/-- A completed record in force is taken away by a completion or a removal only. -/
theorem Shares.leaves (h : x.Shares c k) (hst : r.status = .completed)
    (hset : x.stored m k = some r) (hgone : x.stored n k ≠ some r) (hmn : m ≤ n)
    (hn : n ≤ x.length) :
    ∃ l, m ≤ l ∧ l < n ∧ ∃ j d, x.Changes l j d ∧ d.key = k ∧ d.isFinal = true := by
  obtain ⟨l, hml, hln, j, d, hd, hk, hl, -⟩ :=
    stored_leaves (p := fun s => s = some r) hset hgone hmn hn
  refine ⟨l, hml, hln, j, d, hd, hk, ?_⟩
  cases d with
  | claimed r' =>
    obtain rfl : r'.key = k := hk
    have hreplaced := hd.replaces hl
    rw [Record.isReplaceable, h.inForce l l r (Nat.le_refl l) (by omega) hl hst, hst] at hreplaced
    cases hreplaced
  | completed r' => rfl
  | removed k' => rfl

/-! ### The cache -/

theorem clearing_stays (h : x.phaseOf i m = .clearing) (hmn : m ≤ n) (hn : n ≤ x.length) :
    x.phaseOf i n = .clearing := by
  refine phaseOf_stays (p := fun s => s = Phase.clearing) (fun s q a hs => ?_) h hmn hn
  have hm := s.after_move q a
  generalize s.after q a = s' at hm
  subst hs
  cases hm
  rfl

/-- A call that has changed the ledger and has no claim is an administrative removal. -/
theorem Changes.clearing (h : x.Changes m i d) (hmn : m < n) (hn : n ≤ x.length)
    (free : (x.phaseOf i n).claim? = none) : x.phaseOf i n = .clearing := by
  rcases h.cases with ⟨r, rfl⟩ | ⟨htask, -⟩ | ⟨l, hl, claim, hgranted, -, -⟩
  · rw [h.claim?_of_lt hmn hn] at free
    cases free
  · exact clearing_stays (by rw [phaseOf_zero, Call.begins, htask]) (Nat.zero_le n) hn
  · rw [hgranted.claim?_of_lt (by omega) hn] at free
    cases free

/-- What is kept was taken from the ledger, and the call has not changed it since. -/
theorem kept_took (keyed : ∀ k r, x.stored 0 k = some r → r.key = k)
    (h : x.Says t i (.keep r) ()) :
    r.status = .completed ∧ ∃ l < t, x.Took l i r.key r ∧
      ∀ s < t, l < s → ∀ d, ¬ x.Changes s i d := by
  have ht := Nat.le_of_lt h.1
  have hall : (∃ b t', x.phaseOf i t = .judged b r t' ∧ r.status = .completed ∧
      r.isExpired (secondsOf t') = false) ∨ ∃ claim a, x.phaseOf i t = .stored claim a r :=
    allowed h
  rcases hall with ⟨b, t', hp, hst, -⟩ | ⟨claim, a, hp⟩
  · obtain ⟨l, hl, k, -, hs⟩ := read_shown (r := r) ht (by rw [hp]; rfl)
    obtain rfl : r.key = k := stored_key keyed (by omega) (found hs)
    refine ⟨hst, l, hl, .inl hs, fun s hst' _ d hd => ?_⟩
    have hclearing := hd.clearing hst' ht (by rw [hp]; rfl)
    rw [hp] at hclearing
    cases hclearing
  · obtain ⟨l, hl, hc⟩ := stored_completes ht hp
    obtain ⟨_, _, -, -, hdone⟩ := hc.completed
    refine ⟨hc.completed_status, l, hl, .inr ⟨hc, rfl⟩, fun s _ hls d hd => ?_⟩
    exact hd.not_after_done (by rw [hdone]; trivial) hls

/-- Under a key the cache changes by updates of the key only. -/
theorem Shares.mem_cache_succ (h : x.Shares c k) (hn : n < x.length) (hk : r.key = k)
    (hr : r ∈ ((x.state (n + 1)).caches c).records) :
    (∃ i, x.Says n i (.keep r) ()) ∨
      (r ∈ ((x.state n).caches c).records ∧ ∀ i, ¬ x.Updates n i k) := by
  subst hk
  have hstep := x.step n hn
  cases he : x.event n with
  | drift =>
    rw [he] at hstep
    obtain ⟨⟨t, ht⟩, -⟩ := hstep
    rw [ht] at hr
    refine .inr ⟨hr, ?_⟩
    rintro i ⟨q, a, hs, -⟩
    rw [hs.2] at he
    cases he
  | exchange i q a =>
    have hs : x.Says n i q a := ⟨hn, he⟩
    obtain ⟨outcome, ha⟩ := hs.answers
    have hstate : ((x.state n).reply (calls i).cache outcome q).2 = x.state (n + 1) :=
      congrArg Prod.snd ha
    rw [← hstate, h.shared i] at hr
    have taken : ∀ r', q = .keep r' → r'.key = r.key →
        r'.status = .completed ∧ r'.isExpired (secondsOf (x.state n).now) = false := by
      rintro r' rfl hk
      obtain ⟨hst, l, hl, htook, -⟩ := kept_took h.keyed hs
      rw [hk] at htook
      exact ⟨hst, h.inForce (l + 1) n r' (by omega) (Nat.le_of_lt hn) htook.stored hst⟩
    rcases Site.mem_reply_cache hr taken with rfl | ⟨hr, hne⟩
    · exact .inl ⟨i, hs⟩
    · refine .inr ⟨hr, ?_⟩
      rintro j ⟨q', a', hs', hk⟩
      obtain ⟨-, rfl, -⟩ := Execution.Says.unique hs hs'
      exact hne hk

/-- A cached record was kept by the last update of its key, or was there before. -/
theorem Shares.cached_since (h : x.Shares c k) (hk : r.key = k)
    (hr : r ∈ ((x.state n).caches c).records) (hmn : m ≤ n) (hn : n ≤ x.length) :
    (∃ t, m ≤ t ∧ t < n ∧ ∃ i, x.Says t i (.keep r) () ∧ x.Unupdated k t n) ∨
      (r ∈ ((x.state m).caches c).records ∧ ∀ t < n, m ≤ t → ∀ i, ¬ x.Updates t i k) := by
  induction n, hmn using Nat.le_induction with
  | base => exact .inr ⟨hr, fun t ht hmt => by omega⟩
  | succ n hmn ih =>
    rcases h.mem_cache_succ (Nat.lt_of_succ_le hn) hk hr with ⟨i, hs⟩ | ⟨hr, hno⟩
    · exact .inl ⟨n, hmn, Nat.lt_succ_self n, i, hs, fun l hl hnl => by omega⟩
    · rcases ih hr (by omega) with ⟨t, hmt, ht, i, hs, hsince⟩ | ⟨hr, hsince⟩
      · refine .inl ⟨t, hmt, by omega, i, hs, fun l hl htl => ?_⟩
        rcases Nat.lt_succ_iff_lt_or_eq.mp hl with hl | rfl
        · exact hsince l hl htl
        · exact hno
      · refine .inr ⟨hr, fun l hl hml => ?_⟩
        rcases Nat.lt_succ_iff_lt_or_eq.mp hl with hl | rfl
        · exact hsince l hl hml
        · exact hno

/-! ### Quiet moments -/

/-- While the cache is not updated, and no call is under way in the end, the key is neither
completed nor removed. -/
theorem Shares.not_final (h : x.Shares c k) (hn : n ≤ x.length) (quiet : x.Quiet n)
    (since : x.Unupdated k t n) {s : Nat} (hts : t ≤ s) (hs : s < n) (hd : x.Changes s j d)
    (hk : d.key = k) : d.isFinal = false := by
  rw [← Bool.not_eq_true]
  intro hfinal
  obtain ⟨u, hsu, hun, hu⟩ := hd.pays hfinal (h.caches j) hs hn quiet
  rw [hk] at hu
  exact since u hun (by omega) j hu

/-- A record that was kept too late is not the one in the ledger. -/
theorem KeptLate.stale (h : x.Shares c k) (hn : n ≤ x.length) (quiet : x.Quiet n)
    (late : x.KeptLate k r n) : x.stored n k ≠ some r := by
  obtain ⟨i, l, t, -, hs, htn, since, hgone, -⟩ := late
  obtain ⟨hst, -⟩ := kept_took h.keyed hs
  intro hset
  obtain ⟨s, hts, hsn, j, d, hd, hk, -, hleft⟩ :=
    stored_leaves (p := fun s => s ≠ some r) hgone (fun hne => hne hset) (Nat.le_of_lt htn) hn
  have hnot := h.not_final hn quiet since hts hsn hd hk
  cases d with
  | claimed r' =>
    have hr' : r' = r := by
      by_contra hne
      exact hleft fun hr => hne (Option.some.inj hr)
    rw [← hr', hd.claimed_status] at hst
    cases hst
  | completed r' => cases hnot
  | removed k' => cases hnot

/-- While no call is under way, a cached record that was not kept too late is in the ledger. -/
theorem Shares.agrees_of_mem (h : x.Shares c k) (hn : n ≤ x.length) (quiet : x.Quiet n)
    (hmem : r ∈ ((x.state n).caches c).records) (hk : r.key = k) (notLate : ¬ x.KeptLate k r n) :
    x.stored n k = some r := by
  subst hk
  by_contra stale
  rcases h.cached_since rfl hmem (Nat.zero_le n) hn with ⟨t, -, htn, i, hs, since⟩ | ⟨hmem, since⟩
  · obtain ⟨hst, l, hlt, htook, own⟩ := kept_took h.keyed hs
    by_cases hset : x.stored t r.key = some r
    · -- the ledger has changed after the record was kept
      obtain ⟨s, hts, hsn, j, d, hd, hk, hfinal⟩ := h.leaves hst hset stale (Nat.le_of_lt htn) hn
      rw [h.not_final hn quiet since hts hsn hd hk] at hfinal
      cases hfinal
    · -- the ledger has changed between taking and keeping the record
      obtain ⟨s, hls, hst', j, d, hd, hk, hfinal⟩ := h.leaves hst htook.stored hset hlt (by omega)
      have hj : j ≠ i := by
        rintro rfl
        exact own s hst' hls d hd
      obtain ⟨u, hsu, hun, hu⟩ := hd.pays hfinal (h.caches j) (by omega) hn quiet
      rw [hk] at hu
      have hut : u < t := by
        rcases Nat.lt_trichotomy u t with hut | rfl | hut
        · exact hut
        · obtain ⟨_, _, hu, -⟩ := hu
          exact absurd (Execution.Says.unique hu hs).1 hj
        · exact absurd hu (since u hun hut j)
      exact notLate ⟨i, l, t, htook, hs, htn, since, hset, j, s, u, hj, hls, hsu, hut,
        ⟨d, hd, hk, hfinal⟩, hu⟩
  · obtain ⟨hst, hset⟩ := h.agrees r hmem rfl
    obtain ⟨s, -, hsn, j, d, hd, hk, hfinal⟩ := h.leaves hst hset stale (Nat.zero_le n) hn
    obtain ⟨u, -, hun, hu⟩ := hd.pays hfinal (h.caches j) hsn hn quiet
    rw [hk] at hu
    exact since u hun (Nat.zero_le u) j hu

/-! ### The next call -/

theorem Alone.le {q : Request} {a : Answer α q} (h : x.Alone i m n) (hs : x.Says l i q a) :
    m ≤ l := by
  by_contra hlm
  exact h.1 l (by omega) q a hs

/-- A call that is alone reads what the ledger had at its beginning. -/
theorem Alone.found (h : x.Alone i m n) (hl : l < n)
    (hs : x.Says l i (.ledger (.find k)) (.ok r)) : x.stored m k = some r := by
  have hlx := Nat.le_of_lt hs.1
  by_contra hne
  obtain ⟨s, hms, hsl, j, d, hd, -, -, -⟩ :=
    stored_leaves (p := fun s => s ≠ some r) hne (fun hnot => hnot (Interleaved.found hs)) (h.le hs)
      hlx
  obtain rfl : j = i := h.2 s (by omega) hms j _ _ hd
  obtain ⟨⟨b, hp⟩, -⟩ : (∃ b, x.phaseOf j l = .denied b) ∧ (calls j).key? = some k := allowed hs
  have hclearing := hd.clearing hsl hlx (by rw [hp]; rfl)
  rw [hp] at hclearing
  cases hclearing

/-- A call that is alone finds in the cache what was there at its beginning, or what the ledger had
then. -/
theorem Alone.cached (h : x.Alone i m n) (shares : x.Shares c k) (hl : l < n)
    (hs : x.Says l i (.cached k) (some r)) :
    r.key = k ∧ (r ∈ ((x.state m).caches c).records ∨ x.stored m k = some r) := by
  have hlx := Nat.le_of_lt hs.1
  obtain ⟨outcome, ha⟩ := hs.answers
  obtain ⟨hmem, rfl⟩ := Cache.get_some (congrArg Prod.fst ha)
  rw [shares.shared i] at hmem
  refine ⟨rfl, ?_⟩
  rcases shares.cached_since rfl hmem (h.le hs) hlx with ⟨t, hmt, htl, j, hkeep, -⟩ | ⟨hmem, -⟩
  · obtain rfl : j = i := h.2 t (by omega) hmt j _ _ hkeep
    obtain ⟨-, u, hut, htook | ⟨hdone, -⟩, -⟩ := kept_took shares.keyed hkeep
    · exact .inr (h.found (by omega) htook)
    · -- a call that has completed its key looks nothing up
      obtain ⟨⟨b, hp⟩, -⟩ : (∃ b, x.phaseOf j l = .seeking b) ∧ _ := allowed hs
      have hclearing := hdone.clearing (by omega : u < l) hlx (by rw [hp]; rfl)
      rw [hp] at hclearing
      cases hclearing
  · exact .inl hmem

/-- **While no call is under way, a record that the cache has is the one in the ledger, unless it
was kept too late; and so is a record that is given to the next call.** -/
theorem cache_agrees_iff (h : x.Shares c k) (hn : n ≤ x.length) (quiet : x.Quiet n) :
    (∀ r, x.cached? c n k = some r → (x.stored n k = some r ↔ ¬ x.KeptLate k r n)) ∧
    (∀ i m, x.Alone i n m → ∀ l < m, ∀ r, x.Given l i k r →
      (x.stored n k = some r ↔ ¬ x.KeptLate k r n)) := by
  refine ⟨fun r hr => ⟨fun hset late => late.stale h hn quiet hset, fun notLate => ?_⟩,
    fun i m alone l hl r given => ⟨fun hset late => late.stale h hn quiet hset, fun notLate => ?_⟩⟩
  · obtain ⟨hmem, hk⟩ := Cache.get_some hr
    exact h.agrees_of_mem hn quiet hmem hk notLate
  · rcases given with hs | hs
    · obtain ⟨hk, hmem | hset⟩ := alone.cached h hl hs
      · exact h.agrees_of_mem hn quiet hmem hk notLate
      · exact hset
    · exact alone.found hl hs

/-! ### A record that is kept too late

The second call has missed the cache when the first one begins, and reads what the first one has
stored.  Before the second call keeps it, the record is removed.
-/

/-- Calls for the order that share a cache; one of them removes its record. -/
def clients (i : Fin 4) : Call Unit String :=
  ⟨{ charging 2 with caches := true }, (), .ok (.string "order"),
    if i = 2 then .delete else .run plain none⟩

/-- The last call comes when all others have ended. -/
def lateKeep : Interleaved clients :=
  (player clients fun i => .ok (if i = 0 then "first" else "another")).play .roomy _
    (turns 1 2 ++ turns 0 13 ++ turns 1 5 ++ turns 2 2 ++ turns 1 4 ++ turns 3 4)

def firstResult : Record := ⟨order, .completed, some 3600, none, some "first", none⟩

theorem lateKeep_shares : lateKeep.Shares () order := by
  have inForce : ∀ l ≤ lateKeep.length, (lateKeep.state l).now = 0 ∧
      (lateKeep.stored l order).all (fun r => !r.isExpired (secondsOf 0)) = true := by
    decide +kernel
  refine ⟨fun _ => rfl, fun _ => rfl, fun _ _ => nofun, nofun, fun l m r hlm hm hr _ => ?_⟩
  obtain ⟨-, hforce⟩ := inForce l (by omega)
  rw [hr] at hforce
  rw [(inForce m hm).1]
  simpa using hforce

theorem lateKeep_course :
    lateKeep.length = 30 ∧ lateKeep.Changes 20 2 (.removed order) ∧
      lateKeep.cached? () 26 order = some firstResult ∧ lateKeep.stored 26 order = none ∧
      (∀ l < 30, 26 ≤ l → (lateKeep.event l).who? = some 3) ∧
      (∀ l < 26, (lateKeep.event l).who? ≠ some 3) ∧
      given? (lateKeep.event 27) = some (3, order, firstResult) := by
  decide +kernel

theorem lateKeep_quiet : lateKeep.Quiet 26 := by
  obtain ⟨-, -, -, -, -, waits, -⟩ := lateKeep_course
  have ends : ∀ i, i ≠ 3 → (lateKeep.talk 26 i).result?.isSome = true := by decide +kernel
  intro i
  by_cases hi : i = 3
  · subst hi
    exact .inl fun l hl q a hs => waits l hl hs.who
  · obtain ⟨b, hb⟩ := Option.isSome_iff_exists.mp (ends i hi)
    exact .inr ⟨b, Dialogue.result?_eq_some.mp hb⟩

theorem lateKeep_alone : lateKeep.Alone 3 26 30 := by
  obtain ⟨-, -, -, -, only, waits, -⟩ := lateKeep_course
  refine ⟨fun l hl q a hs => waits l hl hs.who, fun l hl hm j q a hs => ?_⟩
  exact Option.some.inj (hs.who.symm.trans (only l hl hm))

/-- The record that the cache has is one that was kept too late. -/
theorem lateKeep_keptLate :
    lateKeep.cached? () 26 order = some firstResult ∧ lateKeep.KeptLate order firstResult 26 := by
  obtain ⟨hlength, -, hcached, hnone, -⟩ := lateKeep_course
  refine ⟨hcached, ?_⟩
  have agrees := (cache_agrees_iff lateKeep_shares (by omega) lateKeep_quiet).1 firstResult hcached
  by_contra notLate
  have hset := agrees.mpr notLate
  rw [hnone] at hset
  cases hset

/-- A cache may have what the ledger does not, and after a removal the next call may be given what
was removed. -/
theorem cache_outlives_removal :
    (¬ ∀ (calls : Fin 4 → Call Unit String) (x : Interleaved calls) (k : Key) (n : Nat),
      x.Shares () k → n ≤ x.length → x.Quiet n →
      ∀ r, x.cached? () n k = some r → x.stored n k = some r) ∧
    ¬ ∀ (calls : Fin 4 → Call Unit String) (x : Interleaved calls) (k : Key) (n : Nat),
      x.Shares () k → n ≤ x.length → x.Quiet n →
      (∃ l < n, ∃ j, x.Changes l j (.removed k)) → x.stored n k = none →
      ∀ i m, x.Alone i n m → ∀ l < m, ∀ r, ¬ x.Given l i k r := by
  obtain ⟨hlength, removed, hcached, hnone, -, -, given⟩ := lateKeep_course
  constructor
  · intro claim
    have hset := claim clients lateKeep order 26 lateKeep_shares (by omega) lateKeep_quiet
      firstResult hcached
    rw [hnone] at hset
    cases hset
  · intro claim
    exact claim clients lateKeep order 26 lateKeep_shares (by omega) lateKeep_quiet
      ⟨20, by omega, 2, removed⟩ hnone 3 30 lateKeep_alone 27 (by omega) firstResult
      (given_of_event (by omega) given)

end Interleaved

end AtMostOnce.Engine
