/-
Any number of calls at one site.

The calls share a clock, a ledger in memory and their caches.  Their questions are
answered one at a time and in any order, and in between the clock may be moved, back
as well as on.  Administrative removals are calls like the others; one that passes the
caches by is a call of an engine without a cache.

Two kinds of facts come out of a step.  The record under a key changes only by a
claim, a completion or a removal of that key, and a claim finds the key free
(`stored_succ_cases`, `Changes.isFree`).  And a call changes the ledger only in the
phase for it: it completes or gives up what it was granted before, once.
-/
import AtMostOnce.Cache
import AtMostOnce.Ledger.Memory
import AtMostOnce.Proofs.Engine.Course
import AtMostOnce.Proofs.Interleaving
import Mathlib.Tactic.WLOG

namespace AtMostOnce.Engine

variable {κ α ι : Type} [DecidableEq κ] [DecidableEq ι]

/-! ### Sites -/

/-- What the calls share. -/
structure Site (κ : Type) where
  now : Millis
  records : Ledger.Memory
  caches : κ → Cache

namespace Site

def setCache (s : Site κ) (i : κ) (c : Cache) : Site κ :=
  { s with caches := Function.update s.caches i c }

/-- The answer to a question of a call with a cache, and the site after it; `outcome` is how the
function ends, should that be asked. -/
def reply (s : Site κ) (i : κ) (outcome : Except Failure α) : (q : Request) → Answer α q × Site κ
  | .now => (s.now, s)
  | .cached k =>
    (((s.caches i).get (secondsOf s.now) k).1,
      s.setCache i ((s.caches i).get (secondsOf s.now) k).2)
  | .keep r => ((), s.setCache i ((s.caches i).put (secondsOf s.now) r))
  | .forget k => ((), s.setCache i ((s.caches i).erase k))
  | .ledger q =>
    ((Ledger.Memory.answer s.now q s.records).1,
      { s with records := (Ledger.Memory.answer s.now q s.records).2 })
  | .start => ((), s)
  | .finish => (outcome, s)
  | .note _ => ((), s)

theorem reply_honest (s : Site κ) (i : κ) (outcome : Except Failure α) (q : Request) :
    Call.honest q (s.reply i outcome q).1 := by
  cases q with
  | ledger q =>
    cases q with
    | claim r =>
      show ∃ o, (Ledger.Memory.answer s.now (.claim r) s.records).1 = .ok o
      rw [Ledger.Memory.answer]
      split
      · exact ⟨_, rfl⟩
      · exact ⟨_, rfl⟩
    | find k =>
      show (∃ r, (Ledger.Memory.answer s.now (.find k) s.records).1 = .ok r) ∨
        (Ledger.Memory.answer s.now (.find k) s.records).1 = .error (.itemNotFound k)
      rw [Ledger.Memory.answer]
      split
      · exact .inl ⟨_, rfl⟩
      · exact .inr rfl
    | complete r => rfl
    | remove k => rfl
  | _ => trivial

end Site

/-- The scene of some calls: one site, with a clock that anybody may move. -/
def scene (calls : ι → Call κ α) : Scene ι Request (Answer α) (Site κ) where
  answers i q a s s' := ∃ outcome, s.reply (calls i).cache outcome q = (a, s')
  drifts s s' := ∃ t, s' = { s with now := t }

/-- Some calls that take turns. -/
abbrev Interleaved (calls : ι → Call κ α) :=
  Execution (scene calls) fun i => (calls i).talk

/-! ### Changes of the ledger -/

/-- A change of the ledger. -/
inductive Change where
  | claimed (r : Record)
  | completed (r : Record)
  | removed (key : Key)
  deriving DecidableEq, Repr

namespace Change

def key : Change → Key
  | claimed r => r.key
  | completed r => r.key
  | removed k => k

/-- What stands under the key then. -/
def left? : Change → Option Record
  | claimed r => some r
  | completed r => some r
  | removed _ => none

def request : Change → Ledger.Request
  | claimed r => .claim r
  | completed r => .complete r
  | removed k => .remove k

def answer : (c : Change) → c.request.Answer
  | claimed _ => .ok .created
  | completed _ => .ok ()
  | removed _ => .ok ()

end Change

/-- The records stay, or the answer tells of a change. -/
theorem Site.reply_records_cases (s : Site κ) (i : κ) (outcome : Except Failure α) (q : Request) :
    (∃ c : Change, q = .ledger c.request ∧ HEq (s.reply i outcome q).1 c.answer) ∨
      (s.reply i outcome q).2.records = s.records := by
  cases q with
  | ledger q =>
    cases q with
    | claim r =>
      by_cases hfree : s.records.isFree r.key s.now = true
      · refine .inl ⟨.claimed r, rfl, heq_of_eq ?_⟩
        show (Ledger.Memory.answer s.now (.claim r) s.records).1 = .ok .created
        rw [Ledger.Memory.answer, if_pos hfree]
      · right
        show (Ledger.Memory.answer s.now (.claim r) s.records).2 = s.records
        rw [Ledger.Memory.answer, if_neg hfree]
    | find k =>
      right
      show (Ledger.Memory.answer s.now (.find k) s.records).2 = s.records
      rw [Ledger.Memory.answer]
      split <;> rfl
    | complete r => exact .inl ⟨.completed r, rfl, HEq.rfl⟩
    | remove k => exact .inl ⟨.removed k, rfl, HEq.rfl⟩
  | _ => exact .inr rfl

namespace Interleaved

variable {calls : ι → Call κ α} (x : Interleaved calls)

/-- A call changes the ledger in the `n`-th event. -/
def Changes (n : Nat) (i : ι) (c : Change) : Prop := x.Says n i (.ledger c.request) c.answer

/-- The function is started by a call in the `n`-th event. -/
def Starts (n : Nat) (i : ι) : Prop := x.Says n i .start ()

/-- The record under a key before the `n`-th event. -/
def stored (n : Nat) (k : Key) : Option Record := (x.state n).records.get? k

/-- How far a call has come before the `n`-th event. -/
def phaseOf (i : ι) (n : Nat) : Phase α := x.phase (calls i).protocol (calls i).begins i n

variable {x} {m n : Nat} {i j : ι} {c d : Change} {k : Key} {r : Record}

/-! ### Questions and phases -/

theorem honest {q : Request} {a : Answer α q} (h : x.Says n i q a) : Call.honest q a := by
  obtain ⟨outcome, ha⟩ := h.answers
  have hr := (x.state n).reply_honest (calls i).cache outcome q
  rw [ha] at hr
  exact hr

theorem allowed {q : Request} {a : Answer α q} (h : x.Says n i q a) :
    (calls i).allows (x.phaseOf i n) q :=
  h.allowed (talk_follows (calls i)) fun _ _ _ => honest

theorem phaseOf_zero : x.phaseOf i 0 = (calls i).begins := rfl

theorem phaseOf_succ {q : Request} {a : Answer α q} (h : x.Says n i q a) :
    x.phaseOf i (n + 1) = (x.phaseOf i n).after q a := h.phase_succ

theorem phaseOf_succ_cases (i : ι) (hn : n < x.length) :
    (∃ q a, x.Says n i q a) ∨ x.phaseOf i (n + 1) = x.phaseOf i n :=
  x.phase_succ_cases _ _ i hn

theorem phaseOf_stays {p : Phase α → Prop} (hp : ∀ s q a, p s → p (s.after q a))
    (h : p (x.phaseOf i m)) (hmn : m ≤ n) (hn : n ≤ x.length) : p (x.phaseOf i n) :=
  Execution.phase_stays hp h hmn hn

/-- What no call begins with comes about by a move of the call. -/
theorem phaseOf_arises {p : Phase α → Prop} (h1 : ¬ p .apart) (h2 : ¬ p (.seeking false))
    (h3 : ¬ p .clearing) (hn : n ≤ x.length) (h : p (x.phaseOf i n)) :
    ∃ m < n, ∃ q a s s', x.Says m i q a ∧ x.phaseOf i m = s ∧ x.phaseOf i (m + 1) = s' ∧
      Phase.Move s q a s' ∧ ¬ p s ∧ p s' := by
  have h0 : ¬ p (calls i).begins := by
    rcases (calls i).begins_cases with hb | hb | hb
    · rwa [hb]
    · rwa [hb]
    · rwa [hb]
  obtain ⟨m, hm, q, a, hs, hnot, hp⟩ := Execution.phase_arises h0 hn h
  exact ⟨m, hm, q, a, _, _, hs, rfl, phaseOf_succ hs, Phase.after_move _ q a, hnot, hp⟩

/-- A call ends in a phase and with a result that belong together. -/
theorem finished {b : Ending α} (h : x.Ends i b) :
    ∃ n ≤ x.length, (calls i).finishes (x.phaseOf i n) b := by
  obtain ⟨n, hn, hd⟩ := h
  refine ⟨n, hn, ?_⟩
  have hf := Execution.follows_phase (x := x) (talk_follows (calls i)) (fun _ _ _ => honest) n hn
  rw [hd] at hf
  exact hf

/-! ### The ledger -/

theorem Changes.unique (h : x.Changes n i c) (h' : x.Changes n j d) : i = j ∧ c = d := by
  obtain ⟨hi, hq, ha⟩ := Execution.Says.unique h h'
  refine ⟨hi, ?_⟩
  cases c <;> cases d <;> cases hq <;> rfl

theorem Changes.isFree (h : x.Changes n i (.claimed r)) :
    (x.state n).records.isFree r.key (x.state n).now = true := by
  obtain ⟨outcome, ha⟩ := Execution.Says.answers h
  have hf : (Ledger.Memory.answer (x.state n).now (.claim r) (x.state n).records).1
      = .ok .created := congrArg Prod.fst ha
  by_contra hfree
  simp only [Ledger.Memory.answer, if_neg hfree] at hf
  cases hf

theorem Changes.replaces {old : Record} (h : x.Changes n i (.claimed r))
    (hs : x.stored n r.key = some old) : old.isReplaceable (x.state n).now = true := by
  have hfree := h.isFree
  unfold stored at hs
  rw [Ledger.Memory.isFree, hs] at hfree
  exact hfree

/-- A claim is refused for a record that may not be replaced. -/
theorem refused (h : x.Says n i (.ledger (.claim r)) (.ok .conflict)) :
    ∃ old, x.stored n r.key = some old ∧ old.isReplaceable (x.state n).now = false := by
  obtain ⟨outcome, ha⟩ := Execution.Says.answers h
  have hf : (Ledger.Memory.answer (x.state n).now (.claim r) (x.state n).records).1
      = .ok .conflict := congrArg Prod.fst ha
  have hfree : ¬ (x.state n).records.isFree r.key (x.state n).now = true := by
    intro hfree
    simp only [Ledger.Memory.answer, if_pos hfree] at hf
    cases hf
  unfold Ledger.Memory.isFree at hfree
  unfold stored
  cases hs : (x.state n).records.get? r.key with
  | none =>
    rw [hs] at hfree
    exact absurd rfl hfree
  | some old =>
    rw [hs] at hfree
    exact ⟨old, rfl, by simpa using hfree⟩

/-- The answer of a search is the record that is stored. -/
theorem found {a : Except Error Record} (h : x.Says n i (.ledger (.find k)) a) :
    x.stored n k = a.toOption := by
  obtain ⟨outcome, ha⟩ := Execution.Says.answers h
  have hf : (Ledger.Memory.answer (x.state n).now (.find k) (x.state n).records).1 = a :=
    congrArg Prod.fst ha
  unfold stored
  rw [← hf, Ledger.Memory.answer]
  split
  · assumption
  · assumption

theorem Changes.stored (h : x.Changes n i c) (k : Key) :
    x.stored (n + 1) k = if c.key = k then c.left? else x.stored n k := by
  obtain ⟨outcome, ha⟩ := Execution.Says.answers h
  have hs : x.state (n + 1) = ((x.state n).reply (calls i).cache outcome (.ledger c.request)).2 :=
    (congrArg Prod.snd ha).symm
  unfold Interleaved.stored
  rw [hs]
  cases c with
  | claimed r =>
    have hfree := h.isFree
    show Assoc.get? (Ledger.Memory.answer _ (.claim r) _).2 k = _
    simp only [Ledger.Memory.answer, if_pos hfree]
    exact Assoc.get?_insert _ _ _ _
  | completed r => exact Assoc.get?_insert _ _ _ _
  | removed k' => exact Assoc.get?_erase _ _ _

theorem Changes.stored_key (h : x.Changes n i c) : x.stored (n + 1) c.key = c.left? := by
  rw [h.stored, if_pos rfl]

/-- The record under a key stays, or the key is changed. -/
theorem stored_succ_cases (hn : n < x.length) (k : Key) :
    (∃ i c, x.Changes n i c ∧ c.key = k ∧ x.stored (n + 1) k = c.left?) ∨
      x.stored (n + 1) k = x.stored n k := by
  cases he : x.event n with
  | drift =>
    have hs := x.step n hn
    rw [he] at hs
    obtain ⟨⟨t, ht⟩, -⟩ := hs
    right
    unfold stored
    rw [ht]
  | exchange i q a =>
    have hsaid : x.Says n i q a := ⟨hn, he⟩
    obtain ⟨outcome, ha⟩ := hsaid.answers
    rcases (x.state n).reply_records_cases (calls i).cache outcome q with ⟨c, rfl, hc⟩ | hr
    · rw [ha] at hc
      have hchange : x.Changes n i c := by
        unfold Changes
        rw [← eq_of_heq hc]
        exact hsaid
      by_cases hk : c.key = k
      · exact .inl ⟨i, c, hchange, hk, by rw [hchange.stored, if_pos hk]⟩
      · exact .inr (by rw [hchange.stored, if_neg hk])
    · right
      rw [ha] at hr
      unfold stored
      rw [hr]

/-! ### Holding a key -/

/-- A claim is granted to a call that seeks, and makes it the holder. -/
theorem Changes.claimed (h : x.Changes n i (.claimed r)) :
    ∃ b, x.phaseOf i n = .seeking b ∧ x.phaseOf i (n + 1) = .holding r ∧ (calls i).claims r := by
  obtain ⟨⟨b, hb⟩, hc⟩ : (∃ b, x.phaseOf i n = .seeking b) ∧ (calls i).claims r := allowed h
  refine ⟨b, hb, ?_, hc⟩
  rw [phaseOf_succ h, hb]
  rfl

/-- A completion is one of the holder, whose function has ended well. -/
theorem Changes.completed (h : x.Changes n i (.completed r)) :
    ∃ claim a, x.phaseOf i n = .ended claim (.ok a) ∧ (calls i).completes claim a r ∧
      x.phaseOf i (n + 1) = .stored claim a r := by
  obtain ⟨claim, a, hp, hc⟩ : ∃ claim a, x.phaseOf i n = .ended claim (.ok a) ∧
    (calls i).completes claim a r := allowed h
  refine ⟨claim, a, hp, hc, ?_⟩
  rw [phaseOf_succ h, hp]
  rfl

theorem task_of_clearing (hn : n ≤ x.length) (h : x.phaseOf i n = .clearing) :
    (calls i).task = .delete := by
  by_contra ht
  have h0 : x.phaseOf i 0 ≠ .clearing := by
    rw [phaseOf_zero, Call.begins]
    split
    · split <;> nofun
    · exact absurd ‹_› ht
  exact phaseOf_stays (p := fun s => s ≠ Phase.clearing)
    (fun _ _ _ hs ha => hs (Phase.clearing_of_after ha)) h0 (Nat.zero_le n) hn h

/-- A removal is administrative, or one of the holder, whose function has failed. -/
theorem Changes.removed (h : x.Changes n i (.removed k)) :
    (x.phaseOf i n = .clearing ∧ (calls i).task = .delete) ∨
      ∃ claim f, x.phaseOf i n = .ended claim (.error f) ∧ k = claim.key ∧
        x.phaseOf i (n + 1) = .dropped claim f := by
  have ha : (∃ claim f, x.phaseOf i n = .ended claim (.error f) ∧ k = claim.key ∧
      (calls i).engine.settings.rollsBack f = true) ∨
      (x.phaseOf i n = .clearing ∧ (calls i).key? = some k) := allowed h
  rcases ha with ⟨claim, f, hp, hk, -⟩ | ⟨hp, -⟩
  · refine .inr ⟨claim, f, hp, hk, ?_⟩
    rw [phaseOf_succ h, hp]
    rfl
  · exact .inl ⟨hp, task_of_clearing (Nat.le_of_lt h.1) hp⟩

theorem Changes.claim?_of_lt (h : x.Changes m i (.claimed r)) (hmn : m < n) (hn : n ≤ x.length) :
    (x.phaseOf i n).claim? = some r := by
  obtain ⟨b, -, hp, -⟩ := h.claimed
  exact phaseOf_stays (p := fun s => Phase.claim? s = some r)
    (fun _ q a hs => Phase.claim?_after hs q a) (congrArg Phase.claim? hp) hmn hn

/-- Whoever has a claim was granted it. -/
theorem claimed_of_claim? (hn : n ≤ x.length) (h : (x.phaseOf i n).claim? = some r) :
    ∃ m < n, x.Changes m i (.claimed r) := by
  obtain ⟨m, hm, q, a, s, s', hs, -, -, hmove, hnot, hp⟩ :=
    phaseOf_arises (p := fun s => s.claim? = some r) nofun nofun nofun hn h
  cases hmove with
  | claims b r' =>
    cases hp
    exact ⟨m, hm, hs⟩
  | _ => exact absurd hp hnot

theorem Changes.claimed_unique {r' : Record} (h : x.Changes m i (.claimed r))
    (h' : x.Changes n i (.claimed r')) : m = n := by
  wlog hmn : m ≤ n generalizing m n r r'
  · exact (this h' h (Nat.le_of_not_le hmn)).symm
  by_contra hne
  obtain ⟨b, hb, -, -⟩ := h'.claimed
  have hc := h.claim?_of_lt (Nat.lt_of_le_of_ne hmn hne) (Nat.le_of_lt h'.1)
  rw [hb] at hc
  cases hc

/-- What a call changes it claims, removes administratively, or was granted before, and with that
it is done. -/
theorem Changes.cases (h : x.Changes n i c) :
    (∃ r, c = .claimed r) ∨ ((calls i).task = .delete ∧ ∃ k, c = .removed k) ∨
      ∃ m < n, ∃ r, x.Changes m i (.claimed r) ∧ r.key = c.key ∧
        (x.phaseOf i (n + 1)).isDone := by
  have hn := Nat.le_of_lt h.1
  cases c with
  | claimed r => exact .inl ⟨r, rfl⟩
  | completed w =>
    obtain ⟨claim, a, hp, ⟨_, _, _, _, _, _, hw⟩, hp'⟩ := h.completed
    obtain ⟨m, hm, hg⟩ := claimed_of_claim? (r := claim) hn (by rw [hp]; rfl)
    exact .inr (.inr ⟨m, hm, claim, hg, by rw [hw]; rfl, by rw [hp']; trivial⟩)
  | removed k =>
    rcases h.removed with ⟨-, ht⟩ | ⟨claim, f, hp, rfl, hp'⟩
    · exact .inr (.inl ⟨ht, k, rfl⟩)
    · obtain ⟨m, hm, hg⟩ := claimed_of_claim? (r := claim) hn (by rw [hp]; rfl)
      exact .inr (.inr ⟨m, hm, claim, hg, rfl, by rw [hp']; trivial⟩)

theorem Changes.not_after_done (h : x.Changes n i c) (hd : (x.phaseOf i m).isDone) (hmn : m ≤ n) :
    False := by
  have hdone : (x.phaseOf i n).isDone :=
    phaseOf_stays (fun _ q a hs => Phase.isDone_after hs q a) hd hmn (Nat.le_of_lt h.1)
  cases c with
  | claimed r =>
    obtain ⟨b, hp, -⟩ := h.claimed
    rw [hp] at hdone
    exact hdone
  | completed w =>
    obtain ⟨claim, a, hp, -⟩ := h.completed
    rw [hp] at hdone
    exact hdone
  | removed k =>
    rcases h.removed with ⟨hp, -⟩ | ⟨claim, f, hp, -⟩
    · rw [hp] at hdone
      exact hdone
    · rw [hp] at hdone
      exact hdone

/-! ### Reading an event -/

/-- The change that an event makes, and who makes it. -/
def change? : Execution.Event ι Request (Answer α) → Option (ι × Change)
  | .exchange i (.ledger (.claim r)) (.ok .created) => some (i, .claimed r)
  | .exchange i (.ledger (.complete r)) (.ok ()) => some (i, .completed r)
  | .exchange i (.ledger (.remove k)) (.ok ()) => some (i, .removed k)
  | _ => none

def starter? : Execution.Event ι Request (Answer α) → Option ι
  | .exchange i .start () => some i
  | _ => none

theorem changes_iff : x.Changes n i c ↔ n < x.length ∧ change? (x.event n) = some (i, c) := by
  constructor
  · rintro ⟨hn, he⟩
    refine ⟨hn, ?_⟩
    rw [he]
    cases c <;> rfl
  · rintro ⟨hn, he⟩
    refine ⟨hn, ?_⟩
    unfold change? at he
    split at he <;> cases he <;> assumption

theorem starts_iff : x.Starts n i ↔ n < x.length ∧ starter? (x.event n) = some i := by
  constructor
  · rintro ⟨hn, he⟩
    refine ⟨hn, ?_⟩
    rw [he]
    rfl
  · rintro ⟨hn, he⟩
    refine ⟨hn, ?_⟩
    unfold starter? at he
    split at he <;> cases he
    assumption

/-- What the call has returned, if it is done. -/
def returned? (x : Interleaved calls) (i : ι) (n : Nat) : Option (Error ⊕ α) :=
  match (x.talk n i).result? with
  | some (.returned (.error e)) => some (.inl e)
  | some (.returned (.ok a)) => some (.inr a)
  | _ => none

theorem ends_of_returned? {v : Error ⊕ α} (hn : n ≤ x.length) (h : x.returned? i n = some v) :
    x.Ends i (.returned (v.elim .error .ok)) := by
  unfold returned? at h
  split at h
  · cases h
    exact ⟨n, hn, Dialogue.result?_eq_some.mp ‹_›⟩
  · cases h
    exact ⟨n, hn, Dialogue.result?_eq_some.mp ‹_›⟩
  · cases h

theorem not_changes (h : (change? (x.event n)).map Prod.fst ≠ some i) (c : Change) :
    ¬ x.Changes n i c := by
  intro hc
  rw [(changes_iff.mp hc).2] at h
  exact h rfl

instance : Decidable (x.Changes n i c) := decidable_of_iff _ changes_iff.symm

instance : Decidable (x.Starts n i) := decidable_of_iff _ starts_iff.symm

end Interleaved

/-! ### Schedules -/

/-- The site without records, at the beginning of time. -/
def Site.vacant : Site κ := ⟨0, [], fun _ => .empty 0⟩

/-- The site without records, at the beginning of time, whose caches have room. -/
def Site.roomy : Site κ := ⟨0, [], fun _ => .empty 4⟩

/-- Answers as the site does, with a result of its own for each call's function. -/
def player (calls : ι → Call κ α) (outcome : ι → Except Failure α) :
    Player (scene calls) Millis where
  answer i q s := s.reply (calls i).cache (outcome i) q
  drift t s := { s with now := t }
  answers i _ _ := ⟨outcome i, rfl⟩
  drifts t _ := ⟨t, rfl⟩
  idles s := ⟨s.now, rfl⟩

/-- Calls that start from nothing and take turns by a schedule. -/
def playCalls (calls : ι → Call κ α) (outcome : ι → Except Failure α)
    (schedule : List (ι ⊕ Millis)) : Interleaved calls :=
  (player calls outcome).play .vacant _ schedule

/-- The engine of a function that charges an order, with the whole payload as its key. -/
def charging (maxRetries : Nat) : Engine where
  functionName := "charge"
  settings := { Settings.initial ⟨none, none⟩ with maxRetries := maxRetries }
  rule := ⟨"charge", .identity, .blake2b128, false⟩
  check := ⟨none, .blake2b128⟩
  caches := false

/-- A call that charges the order, or removes its record. -/
def charge (maxRetries : Nat) (task : Task String) : Call Unit String :=
  ⟨charging maxRetries, (), .ok (.string "order"), task⟩

theorem charge_enabled (maxRetries : Nat) (task : Task String) :
    ¬ (charge maxRetries task).isApart := by
  rintro ⟨-, hdis⟩
  cases hdis

def plain : Encoding String := ⟨fun _ a => .ok a, fun _ text => .ok text⟩

def order : Key := ⟨"charge#a187fc0ecc74a5db7adffc9c7e901dfe"⟩

end AtMostOnce.Engine
