/-
Who takes a key of a server of fields.

Any number of claims for one key take turns at a server in memory, operation by
operation, and time passes in between.  A call takes the key when it claims the status
field or replaces what it has read.

A claim of the status field succeeds only after the record before it was dropped: since
the last call took the key, its status has been there.  A replacement is decided on a
read, and goes wrong only if the read was a misread: if it was made before the record
was written, of a record into which another call had written or which was claimed over
an old deadline, or if the time to live was rounded down too far (`taken_or_misread`).
So the calls keep each other out exactly if no misread lets one of them replace a record
in force (`takers_exclude_iff`).
-/
import AtMostOnce.Proofs.Decimal
import AtMostOnce.Proofs.Fields.Entries
import AtMostOnce.Proofs.Fields.Save
import AtMostOnce.Proofs.Interleaving
import Mathlib.Data.Nat.Find

namespace AtMostOnce.Ledger.Fields

open FieldStore

/-- A server of fields in memory and its clock. -/
structure Site where
  now : Millis
  memory : FieldStore.Memory

/-- Can the site answer so, and become the other one by that?  A token may be any text. -/
def Site.Answers (s : Site) : (q : Request) → q.Answer → Site → Prop
  | .now, t, s' => t = s.now ∧ s' = s
  | .token, _, s' => s' = s
  | .store op, a, s' =>
    FieldStore.Memory.answer s.now op s.memory = (a, s'.memory) ∧ s'.now = s.now

/-- The scene of some claims: the site, on which time passes. -/
def scene (ι : Type) : Scene ι Request Request.Answer Site where
  answers _ q a s s' := s.Answers q a s'
  drifts s s' := s.now ≤ s'.now ∧ s'.memory = s.memory

variable {ι : Type} [DecidableEq ι] {names : FieldNames} {k : Key}

/-! ### Steps of the site -/

section

variable {β : Type} {begins : ι → Dialogue Request Request.Answer β}
  {x : Execution (scene ι) begins} {m n : Nat} {i : ι}

theorem carried_out {op : Operation} {a : op.Answer} (h : x.Says n i (.store op) a) :
    FieldStore.Memory.answer (x.state n).now op (x.state n).memory = (a, (x.state (n + 1)).memory) ∧
      (x.state (n + 1)).now = (x.state n).now := h.answers

theorem now_succ (hn : n < x.length) : (x.state n).now ≤ (x.state (n + 1)).now := by
  have hs := x.step n hn
  cases he : x.event n with
  | drift =>
    rw [he] at hs
    exact hs.1.1
  | exchange i q a =>
    have hsaid : x.Says n i q a := ⟨hn, he⟩
    cases q with
    | now => exact Int.le_of_eq (congrArg Site.now hsaid.answers.2).symm
    | token =>
      have same : x.state (n + 1) = x.state n := hsaid.answers
      exact Int.le_of_eq (congrArg Site.now same).symm
    | store op => exact Int.le_of_eq (carried_out hsaid).2.symm

theorem now_le (hmn : m ≤ n) (hn : n ≤ x.length) : (x.state m).now ≤ (x.state n).now := by
  induction n, hmn using Nat.le_induction with
  | base => exact Int.le_refl _
  | succ n hmn ih => exact Int.le_trans (ih (by omega)) (now_succ hn)

theorem memory_succ (hn : n < x.length) :
    (x.state (n + 1)).memory = (x.state n).memory ∨
      ∃ i op a, x.Says n i (.store op) a := by
  have hs := x.step n hn
  cases he : x.event n with
  | drift =>
    rw [he] at hs
    exact .inl hs.1.2
  | exchange i q a =>
    have hsaid : x.Says n i q a := ⟨hn, he⟩
    cases q with
    | now => left; rw [hsaid.answers.2]
    | token => left; rw [show x.state (n + 1) = x.state n from hsaid.answers]
    | store op => exact .inr ⟨i, op, a, hsaid⟩

theorem memory_distinct (hmemory : (x.state 0).memory.Distinct) (hn : n ≤ x.length) :
    (x.state n).memory.Distinct := by
  induction n with
  | zero => exact hmemory
  | succ n ih =>
    have before := ih (by omega)
    rcases memory_succ (Nat.lt_of_succ_le hn) with hs | ⟨i, op, a, hsaid⟩
    · rw [hs]
      exact before
    · have hm := FieldStore.Memory.answer_distinct before (x.state n).now op
      rw [(carried_out hsaid).1] at hm
      exact hm

/-- A server that does not fail goes on so. -/
theorem memory_sound (sound : (x.state 0).memory.writeFails = false) (hn : n ≤ x.length) :
    (x.state n).memory.writeFails = false := by
  induction n with
  | zero => exact sound
  | succ n ih =>
    have before := ih (by omega)
    rcases memory_succ (Nat.lt_of_succ_le hn) with hs | ⟨i, op, a, hsaid⟩
    · rw [hs]
      exact before
    · have hm := FieldStore.Memory.writeFails_answer before (x.state n).now op
      rw [(carried_out hsaid).1] at hm
      exact hm

end

/-- Some claims that take turns. -/
abbrev Claims (names : FieldNames) (rec : ι → Record) :=
  Execution (scene ι) fun i => claim names (rec i)

namespace Claims

variable {rec : ι → Record} (x : Claims names rec)

/-- What the server holds under a key before the `n`-th event. -/
def held (k : Key) (n : Nat) : Option Entry := (x.state n).memory.entry? (x.state n).now k.text

/-- How far a claim has come before the `n`-th event. -/
def phaseOf (i : ι) (n : Nat) : SavePhase := x.phase (protocol names (rec i)) .starting i n

/-- A call claims the status field in the `n`-th event. -/
def Claimed (n : Nat) (i : ι) : Prop :=
  x.Says n i (.store (.claim (rec i).key.text names.status Status.inProgress.name)) (.ok true)

/-- A call replaces what is there in the `n`-th event. -/
def Replaced (n : Nat) (i : ι) : Prop :=
  ∃ ttl, x.Says n i (.store (.replace (rec i).key.text (orphanFields names (rec i)) ttl)) (.ok ())

def Takes (n : Nat) (i : ι) : Prop := x.Claimed n i ∨ x.Replaced n i

/-- No call takes the key strictly between two events. -/
def Untaken (m n : Nat) : Prop := ∀ l < n, m < l → ∀ i, ¬ x.Takes l i

/-- The call is told that it holds the key. -/
def Granted (i : ι) : Prop := x.Ends i (.ok .created)

/-- A record that was written from the `m`-th event on is no longer in force in the `n`-th one: it
was dropped, or its deadline has passed. -/
def Gone (k : Key) (r : Record) (m n : Nat) : Prop :=
  (∃ t ≤ n, m < t ∧ x.held k t = none ∧ x.Untaken m t) ∨ r.isOverdue (x.state n).now = true

/-- What a call has read before it replaces the record does not show the record as it is. -/
inductive Misread (k : Key) (i j : ι) (m n : Nat) : Prop
  /-- The read was made before the record was written. -/
  | early {l : Nat} {fields : Fields} {ttl : Int}
    (read : x.Says l j (.store (.read k.text)) (.ok (fields, ttl))) (before : l < m)
  /-- A third call has written into the record. -/
  | mixed {l : Nat} {h : ι} {fields : Fields} {ttl : Option Int} {a : Except Error Unit}
    (write : x.Says l h (.store (.write k.text fields ttl)) a) (other : h ≠ i)
    (between : m < l ∧ l < n)
  /-- The record was claimed over an old deadline. -/
  | inherited {e : Entry} (claimed : x.Claimed m i) (old : x.held k m = some e)
    (deadline : e.fields.get? names.deadline ≠ none)
  /-- The seconds that the time to live was rounded to have passed, but the record is there. -/
  | rounded {l l' : Nat} {fields : Fields} {ttl : Int}
    (read : x.Says l j (.store (.read k.text)) (.ok (fields, ttl))) (finite : 0 ≤ ttl)
    (between : l < l' ∧ l' < n)
    (passed : Word.wrap (secondsOf (x.state l').now + ttl) < secondsOf (x.state n).now)

variable {x} {m n t : Nat} {i j : ι} {e e' : Entry}

/-! ### Steps -/

omit [DecidableEq ι] in
theorem follows (i : ι) :
    (claim names (rec i)).Follows (protocol names (rec i)) finishes .starting :=
  claim_follows names (rec i)

theorem allowed {q : Request} {a : q.Answer} (h : x.Says n i q a) :
    allows names (rec i) (x.phaseOf i n) q :=
  Execution.Says.allowed (i := i) h (follows i) fun _ _ _ _ => trivial

theorem phaseOf_succ {q : Request} {a : q.Answer} (h : x.Says n i q a) :
    x.phaseOf i (n + 1) = (x.phaseOf i n).after q a := h.phase_succ

/-- What a claim does not begin with comes about by one of its moves. -/
theorem phaseOf_arises {p : SavePhase → Prop} (h0 : ¬ p .starting) (hn : n ≤ x.length)
    (h : p (x.phaseOf i n)) :
    ∃ m < n, ∃ q a s s', x.Says m i q a ∧ x.phaseOf i m = s ∧ x.phaseOf i (m + 1) = s' ∧
      SavePhase.Move s q a s' ∧ ¬ p s ∧ p s' := by
  obtain ⟨m, hm, q, a, hs, hnot, hp⟩ := Execution.phase_arises h0 hn h
  exact ⟨m, hm, q, a, _, _, hs, rfl, phaseOf_succ hs, SavePhase.after_move _ q a, hnot, hp⟩

theorem Takes.lt_length (h : x.Takes n i) : n < x.length := by
  rcases h with h | ⟨_, h⟩
  · exact h.1
  · exact h.1

/-! ### What the server holds -/

theorem lockName_ne (key : Key) : lockName key ≠ key.text := by
  intro h
  have hl := congrArg String.length h
  simp [lockName, String.length_append] at hl

section

variable (hmemory : (x.state 0).memory.Distinct)

include hmemory

omit hmemory in
theorem held_answer {op : Operation} {a : op.Answer} (h : x.Says n i (.store op) a) :
    x.held k (n + 1) =
      FieldStore.Memory.entry? (FieldStore.Memory.answer (x.state n).now op (x.state n).memory).2
        (x.state n).now k.text := by
  obtain ⟨hm, hnow⟩ := carried_out h
  unfold held
  rw [hm, hnow]

variable (hkey : ∀ i, (rec i).key = k)

include hkey

/-- As long as nobody takes the key, its fields change by the writes of claims only. -/
theorem held_fields (hn : n < x.length) (untaken : ∀ i, ¬ x.Takes n i) (he : x.held k n = some e)
    (he' : x.held k (n + 1) = some e') :
    e'.fields = e.fields ∨ ∃ j ttl a,
      x.Says n j (.store (.write k.text (claimFields names (rec j)) ttl)) a ∧
        e'.fields = e.fields.insertAll (claimFields names (rec j)) := by
  have hd := memory_distinct hmemory (Nat.le_of_lt hn)
  have same : x.held k (n + 1) = x.held k n → e'.fields = e.fields := by
    intro hs
    rw [hs, he] at he'
    cases he'
    rfl
  rcases memory_succ hn with hs | ⟨i, op, a, hsaid⟩
  · left
    have hlater := FieldStore.Memory.entry?_later hd (now_succ hn) k.text
    unfold held at he he'
    rw [hs, hlater, he] at he'
    cases (Option.filter_eq_some_iff.mp he').1
    rfl
  · have hall := allowed hsaid
    have hafter := held_answer (k := k) hsaid
    have hans := (carried_out hsaid).1
    cases op with
    | claim key field value =>
      obtain ⟨-, hk, rfl, rfl⟩ := hall
      obtain rfl : key = k.text := by rw [hk, hkey]
      obtain ⟨granted, hg⟩ := FieldStore.Memory.claim_answered (x.state n).memory
        (x.state n).now k.text names.status Status.inProgress.name
      obtain rfl : a = .ok granted := (congrArg Prod.fst hans).symm.trans hg
      cases granted with
      | true =>
        refine absurd (.inl ?_) (untaken i)
        unfold Claimed
        rw [hkey]
        exact hsaid
      | false => exact .inl (same (hafter.trans (FieldStore.Memory.claim_refused hd hg).2))
    | write key fields ttl =>
      obtain ⟨-, rfl, rfl⟩ := hall
      rw [hkey] at hsaid hafter
      rw [hafter] at he'
      rcases FieldStore.Memory.write_fields hd he he' with hf | hf
      · exact .inl hf
      · exact .inr ⟨i, ttl, a, hsaid, hf⟩
    | read key => exact .inl (same (hafter.trans (FieldStore.Memory.entry?_of_live hd rfl k.text)))
    | lock key token ttl =>
      obtain ⟨-, rfl⟩ := hall
      refine .inl (same (hafter.trans (FieldStore.Memory.entry?_answer_of_ne hd ?_)))
      rw [hkey]
      exact lockName_ne k
    | replace key fields ttl =>
      obtain ⟨-, rfl, rfl⟩ := hall
      obtain rfl : a = .ok () := (congrArg Prod.fst hans).symm
      exact absurd (.inr ⟨ttl, hsaid⟩) (untaken i)
    | delete key => exact hall.elim

/-- A claim of the status finds none, and leaves everything else. -/
theorem Claimed.held (h : x.Claimed n i) :
    ∃ e, e = (x.held k n).getD ⟨[], none⟩ ∧ e.fields.get? names.status = none ∧
      x.held k (n + 1) =
        some { e with fields := e.fields.insert names.status Status.inProgress.name } := by
  have hd := memory_distinct hmemory (Nat.le_of_lt h.1)
  unfold Claimed at h
  rw [hkey] at h
  obtain ⟨e, he, hnone, hafter⟩ :=
    FieldStore.Memory.claim_granted hd (congrArg Prod.fst (carried_out h).1)
  exact ⟨e, he, hnone, (held_answer h).trans hafter⟩

theorem Replaced.held (h : x.Replaced n i) (he : x.held k (n + 1) = some e) :
    e.fields = Assoc.insertAll [] (orphanFields names (rec i)) := by
  obtain ⟨ttl, h⟩ := h
  have hd := memory_distinct hmemory (Nat.le_of_lt h.1)
  rw [hkey] at h
  rw [held_answer h] at he
  exact FieldStore.Memory.replace_fields hd he

/-- What every write of a claim keeps holds of the fields from the taking of the key on. -/
theorem held_stays {p : Fields → Prop} (hn : n ≤ x.length) (untaken : x.Untaken m n)
    (present : ∀ t ≤ n, m < t → x.held k t ≠ none)
    (base : ∀ e, x.held k (m + 1) = some e → p e.fields)
    (step : ∀ l < n, m < l → ∀ j ttl a fields,
      x.Says l j (.store (.write k.text (claimFields names (rec j)) ttl)) a → p fields →
        p (fields.insertAll (claimFields names (rec j)))) :
    ∀ t ≤ n, m < t → ∃ e, x.held k t = some e ∧ p e.fields := by
  intro t ht hmt
  induction t, hmt using Nat.le_induction with
  | base =>
    obtain ⟨e, he⟩ := Option.ne_none_iff_exists'.mp (present _ ht (Nat.lt_succ_self m))
    exact ⟨e, he, base e he⟩
  | succ t hmt ih =>
    obtain ⟨e, he, hp⟩ := ih (by omega)
    obtain ⟨e', he'⟩ := Option.ne_none_iff_exists'.mp (present (t + 1) ht (by omega))
    refine ⟨e', he', ?_⟩
    rcases held_fields hmemory hkey (by omega) (untaken t (by omega) hmt) he he' with
      hf | ⟨j, ttl, a, hw, hf⟩
    · rw [hf]
      exact hp
    · rw [hf]
      exact step t (by omega) hmt j ttl a e.fields hw hp

variable (hnames : Distinct names)

include hnames

theorem status_stays (taken : x.Takes m i) (hn : n ≤ x.length) (untaken : x.Untaken m n)
    (present : ∀ t ≤ n, m < t → x.held k t ≠ none) (ht : t ≤ n) (hmt : m < t) :
    ∃ e, x.held k t = some e ∧ e.fields.get? names.status = some Status.inProgress.name := by
  refine held_stays hmemory hkey (p := fun fields => fields.get? names.status = _) hn untaken
    present ?_ ?_ t ht hmt
  · intro e he
    rcases taken with h | h
    · obtain ⟨old, -, -, hafter⟩ := h.held hmemory hkey
      rw [hafter] at he
      cases he
      exact (Assoc.get?_insert _ _ _ _).trans (if_pos rfl)
    · rw [h.held hmemory hkey he]
      exact status_orphanFields hnames (rec i)
  · intro l _ _ j ttl a fields _ hp
    rw [status_insertAll hnames, hp]

/-- A claim of the status puts no deadline beside it. -/
theorem Claimed.without_deadline (h : x.Claimed m i)
    (fresh : ∀ e, x.held k m = some e → e.fields.get? names.deadline = none)
    (he : x.held k (m + 1) = some e) : e.fields.get? names.deadline = none := by
  obtain ⟨old, hold, -, hafter⟩ := h.held hmemory hkey
  rw [hafter] at he
  cases he
  have hget : (old.fields.insert names.status Status.inProgress.name).get? names.deadline =
      old.fields.get? names.deadline :=
    (Assoc.get?_insert _ _ _ _).trans (if_neg hnames.status_deadline)
  refine hget.trans ?_
  rw [hold]
  cases hheld : x.held k m with
  | none => rfl
  | some e0 => exact fresh e0 hheld

/-- Nobody else having written, the deadline is the one of the record, or is not there yet. -/
theorem deadline_stays (taken : x.Takes m i) (hn : n ≤ x.length) (untaken : x.Untaken m n)
    (present : ∀ t ≤ n, m < t → x.held k t ≠ none)
    (unmixed : ∀ l < n, m < l → ∀ j fields ttl a,
      x.Says l j (.store (.write k.text fields ttl)) a → j = i)
    (fresh : ∀ e, x.Claimed m i → x.held k m = some e → e.fields.get? names.deadline = none)
    (ht : t ≤ n) (hmt : m < t) :
    ∃ e, x.held k t = some e ∧ ∀ text, e.fields.get? names.deadline = some text →
      (rec i).deadline.map Text.decimal = some text := by
  refine held_stays hmemory hkey
    (p := fun fields => ∀ text, fields.get? names.deadline = some text →
      (rec i).deadline.map Text.decimal = some text) hn untaken present
    ?_ ?_ t ht hmt
  · intro e he text htext
    rcases taken with h | h
    · rw [h.without_deadline hmemory hkey hnames (fun e0 => fresh e0 h) he] at htext
      cases htext
    · rw [h.held hmemory hkey he, deadline_orphanFields hnames] at htext
      exact htext
  · intro l hl hml j ttl a fields hw hp text htext
    obtain rfl := unmixed l hl hml j _ ttl a hw
    rw [deadline_insertAll hnames] at htext
    cases hdead : (rec j).deadline with
    | none =>
      rw [hdead] at htext
      rw [← hdead]
      exact hp text htext
    | some d =>
      rw [hdead] at htext
      exact htext

end

/-! ### What a call has read -/

/-- A call has read what it goes by, and the times that it goes by are later ones. -/
theorem look_origin {fields : Fields} {ttl : Int} {times : List Millis} (hn : n ≤ x.length)
    (h : (x.phaseOf j n).look? = some (fields, ttl, times)) :
    ∃ l < n, x.Says l j (.store (.read (rec j).key.text)) (.ok (fields, ttl)) ∧
      ∀ t ∈ times, ∃ l' < n, l < l' ∧ (x.state l').now = t := by
  induction n generalizing times with
  | zero => cases h
  | succ n ih =>
    have before : ∀ {times}, (x.phaseOf j n).look? = some (fields, ttl, times) →
        ∃ l < n, x.Says l j (.store (.read (rec j).key.text)) (.ok (fields, ttl)) ∧
          ∀ t ∈ times, ∃ l' < n, l < l' ∧ (x.state l').now = t := ih (by omega)
    have later : (x.phaseOf j n).look? = some (fields, ttl, times) →
        ∃ l < n + 1, x.Says l j (.store (.read (rec j).key.text)) (.ok (fields, ttl)) ∧
          ∀ t ∈ times, ∃ l' < n + 1, l < l' ∧ (x.state l').now = t := by
      intro hl
      obtain ⟨l, hln, hread, htimes⟩ := before hl
      refine ⟨l, by omega, hread, fun t ht => ?_⟩
      obtain ⟨l', hl', hll, hnow⟩ := htimes t ht
      exact ⟨l', by omega, hll, hnow⟩
    rcases Execution.phase_succ_cases (protocol names (rec j)) .starting j
      (Nat.lt_of_succ_le hn) with ⟨q, a, hsaid⟩ | hs
    · have hall := allowed hsaid
      have hmove := (x.phaseOf j n).after_move q a
      rw [← phaseOf_succ hsaid] at hmove
      generalize x.phaseOf j n = s at hmove before later hall
      generalize x.phaseOf j (n + 1) = s' at hmove h
      cases hmove with
      | stays => exact later h
      | reads key fields' ttl' =>
        cases h
        obtain ⟨-, rfl⟩ := hall
        exact ⟨n, by omega, hsaid, nofun⟩
      | asks fields' ttl' times' t =>
        cases h
        obtain ⟨l, hl, hread, htimes⟩ := before rfl
        refine ⟨l, by omega, hread, fun t' ht' => ?_⟩
        rcases List.mem_cons.mp ht' with rfl | ht'
        · exact ⟨n, by omega, hl, hsaid.answers.1.symm⟩
        · obtain ⟨l', hl', hll, hnow⟩ := htimes t' ht'
          exact ⟨l', by omega, hll, hnow⟩
      | locks => exact later h
      | _ => cases h
    · rw [show x.phaseOf j (n + 1) = x.phaseOf j n from hs] at h
      exact later h

theorem read_held {fields : Fields} {ttl : Int}
    (h : x.Says n j (.store (.read k.text)) (.ok (fields, ttl))) (he : x.held k n = some e) :
    fields = e.fields := by
  have hans : Except.ok (((x.state n).memory.fields? (x.state n).now k.text).getD [],
      (x.state n).memory.ttl (x.state n).now k.text) = (.ok (fields, ttl) : Except Error _) :=
    congrArg Prod.fst (carried_out h).1
  have hfields := congrArg Prod.fst (Except.ok.inj hans)
  unfold held at he
  unfold FieldStore.Memory.fields? at hfields
  rw [he] at hfields
  exact hfields.symm

/-! ### Taking the key from another call -/

section

variable (hmemory : (x.state 0).memory.Distinct) (hkey : ∀ i, (rec i).key = k)
  (hnames : Distinct names)

include hmemory hkey hnames

/-- As long as the record is there, no call claims the status field. -/
theorem not_claimed_after (taken : x.Takes m i) (hmn : m < n) (untaken : x.Untaken m n)
    (present : ∀ t ≤ n, m < t → x.held k t ≠ none) : ¬ x.Claimed n j := by
  intro h
  -- a claim finds no status, but the status has been there since the key was taken
  obtain ⟨e, he, hstatus⟩ := status_stays hmemory hkey hnames taken (Nat.le_of_lt h.1) untaken
    present (Nat.le_refl n) hmn
  obtain ⟨old, hold, hnone, -⟩ := h.held hmemory hkey
  rw [he] at hold
  rw [hold] at hnone
  rw [show ((some e).getD ⟨[], none⟩).fields.get? names.status = _ from hstatus] at hnone
  cases hnone

/-- What is read of a record in force shows an orphan only if it is a misread. -/
theorem misread_of_orphaned {l : Nat} {fields : Fields} {ttl : Int} {times : List Millis}
    (taken : x.Takes m i) (hn : n ≤ x.length) (untaken : x.Untaken m n)
    (present : ∀ t ≤ n, m < t → x.held k t ≠ none)
    (inForce : ¬ (rec i).isOverdue (x.state n).now = true)
    (read : x.Says l j (.store (.read k.text)) (.ok (fields, ttl))) (hml : m < l) (hln : l < n)
    (htimes : ∀ t ∈ times, ∃ l' < n, l < l' ∧ (x.state l').now = t)
    (orphaned : Orphaned names fields ttl times) : x.Misread k i j m n := by
  have hlater : ∀ t ∈ times, t ≤ (x.state n).now := by
    intro t ht
    obtain ⟨l', hl', -, rfl⟩ := htimes t ht
    exact now_le (Nat.le_of_lt hl') hn
  obtain ⟨e, he, hstatus⟩ := status_stays hmemory hkey hnames taken hn untaken present
    (Nat.le_of_lt hln) hml
  obtain rfl := read_held read he
  rcases orphaned with hempty | ⟨err, hparse⟩ | ⟨httl, t, ht, t', ht', hlt⟩ |
    ⟨text, d, t, ht, htext, hd, hlt⟩
  · rw [List.isEmpty_iff.mp hempty] at hstatus
    cases hstatus
  · rw [hstatus] at hparse
    cases hparse
  · obtain ⟨l', hl', hll, rfl⟩ := htimes t ht
    refine .rounded read httl ⟨hll, hl'⟩ (Int.lt_of_lt_of_le hlt ?_)
    exact Int.ediv_le_ediv (by omega) (hlater t' ht')
  · by_cases hmixed : ∃ l' h' fields ttl a, x.Says l' h' (.store (.write k.text fields ttl)) a ∧
      h' ≠ i ∧ m < l' ∧ l' < n
    · obtain ⟨l', h', fields, ttl, a, hw, hne, hbetween⟩ := hmixed
      exact .mixed hw hne hbetween
    by_cases hinherited : ∃ e0, x.Claimed m i ∧ x.held k m = some e0 ∧
      e0.fields.get? names.deadline ≠ none
    · obtain ⟨e0, hclaimed, hold, hdeadline⟩ := hinherited
      exact .inherited hclaimed hold hdeadline
    -- what was read is the deadline of the record itself, and it has passed
    have unmixed : ∀ l' < n, m < l' → ∀ j' fields ttl a,
        x.Says l' j' (.store (.write k.text fields ttl)) a → j' = i := by
      intro l' hl' hml' j' fields ttl a hw
      by_contra hne
      exact hmixed ⟨l', j', fields, ttl, a, hw, hne, hml', hl'⟩
    have fresh : ∀ e0, x.Claimed m i → x.held k m = some e0 →
        e0.fields.get? names.deadline = none := by
      intro e0 hclaimed hold
      by_contra hdeadline
      exact hinherited ⟨e0, hclaimed, hold, hdeadline⟩
    obtain ⟨e', he', hown⟩ := deadline_stays hmemory hkey hnames taken hn untaken present unmixed
      fresh (Nat.le_of_lt hln) hml
    rw [he] at he'
    cases he'
    obtain ⟨d', hd', rfl⟩ := Option.map_eq_some_iff.mp (hown text htext)
    rw [Word.ofSignedDigits?_decimal] at hd
    split at hd
    · cases hd
      refine absurd ?_ inForce
      rw [Record.isOverdue, hd']
      exact decide_eq_true (Int.lt_of_lt_of_le hlt (hlater t ht))
    · cases hd

/-- **Whoever takes the key next finds the record gone, or replaces it after a misread.** -/
theorem taken_or_misread (taken : x.Takes m i) (next : x.Takes n j) (hmn : m < n)
    (untaken : x.Untaken m n) :
    x.Gone k (rec i) m n ∨ (x.Replaced n j ∧ x.Misread k i j m n) := by
  by_cases hgone : x.Gone k (rec i) m n
  · exact .inl hgone
  right
  have hn : n ≤ x.length := Nat.le_of_lt next.lt_length
  have present : ∀ t ≤ n, m < t → x.held k t ≠ none := by
    intro t ht hmt hnone
    exact hgone (.inl ⟨t, ht, hmt, hnone, fun l hl => untaken l (by omega)⟩)
  rcases next with h | h
  · exact absurd h (not_claimed_after hmemory hkey hnames taken hmn untaken present)
  · refine ⟨h, ?_⟩
    obtain ⟨ttl', h⟩ := h
    obtain ⟨⟨fields, ttl, times, hphase, horphan⟩, -, -⟩ := allowed h
    have hlook : (x.phaseOf j n).look? = some (fields, ttl, times) := by rw [hphase]; rfl
    obtain ⟨l, hl, hread, htimes⟩ := look_origin hn hlook
    rw [hkey] at hread
    rcases Nat.lt_trichotomy l m with hlm | rfl | hml
    · exact .early hread hlm
    · exfalso
      rcases taken with ht | ⟨_, ht⟩
      · cases (Execution.Says.unique hread ht).2.1
      · cases (Execution.Says.unique hread ht).2.1
    · exact misread_of_orphaned hmemory hkey hnames taken hn untaken present
        (fun hover => hgone (.inr hover)) hread hml hl htimes horphan

end

/-! ### Being granted the key -/

theorem Granted.takes (h : x.Granted i) : ∃ n, x.Takes n i := by
  obtain ⟨n, hn, hdone⟩ := h
  have hf := Execution.follows_phase (x := x) (follows i) (fun _ _ _ _ => trivial) n hn
  rw [hdone] at hf
  have htaken : x.phaseOf i n = .taken := (hf : finishes _ _).mp rfl
  obtain ⟨m, hm, q, a, s, s', hsaid, hs, -, hmove, hnot, hp⟩ :=
    phaseOf_arises (p := fun s => s = .taken) nofun hn htaken
  subst hp
  cases hmove with
  | stays => exact absurd rfl hnot
  | writes key fields ttl =>
    obtain ⟨m', -, q', a', t, t', hsaid', ht, -, hmove', hnot', hp'⟩ :=
      phaseOf_arises (p := fun s => s = .claimed) nofun (Nat.le_of_lt (Nat.lt_of_lt_of_le hm hn)) hs
    subst hp'
    cases hmove' with
    | stays => exact absurd rfl hnot'
    | claims key' field value =>
      obtain ⟨-, rfl, rfl, rfl⟩ := allowed hsaid'
      exact ⟨m', .inl hsaid'⟩
  | replaces fields ttl times key fields' ttl' =>
    obtain ⟨-, rfl, rfl⟩ := allowed hsaid
    exact ⟨m, .inr ⟨ttl', hsaid⟩⟩

theorem Replaced.granted (h : x.Replaced n i) : x.Granted i := by
  obtain ⟨ttl, h⟩ := h
  obtain ⟨⟨fields, ttl', times, hphase, -⟩, -, -⟩ := allowed h
  have hn : n + 1 ≤ x.length := h.1
  have htaken : x.phaseOf i (n + 1) = .taken := by
    rw [phaseOf_succ h, hphase]
    rfl
  have hf := Execution.follows_phase (x := x) (follows i) (fun _ _ _ _ => trivial) (n + 1) hn
  change (x.talk (n + 1) i).Follows _ _ (x.phaseOf i (n + 1)) at hf
  rw [htaken] at hf
  cases htalk : x.talk (n + 1) i with
  | done result =>
    rw [htalk] at hf
    exact ⟨n + 1, hn, htalk.trans (congrArg _ ((hf : finishes _ _).mpr rfl))⟩
  | ask q next =>
    rw [htalk] at hf
    have hall := hf.1
    exact absurd hall (not_allows_taken names (rec i) q)

theorem Gone.mono {r : Record} {l : Nat} (h : x.Gone k r m l) (hln : l ≤ n) (hn : n ≤ x.length) :
    x.Gone k r m n := by
  rcases h with ⟨t, ht, hmt, hnone, huntaken⟩ | hover
  · exact .inl ⟨t, by omega, hmt, hnone, huntaken⟩
  · right
    unfold Record.isOverdue at hover ⊢
    split
    · rename_i d hd
      rw [hd] at hover
      have hlt : d < (x.state l).now := of_decide_eq_true hover
      exact decide_eq_true (Int.lt_of_lt_of_le hlt (now_le hln hn))
    · rename_i hd
      rw [hd] at hover
      cases hover

/-- **Whoever is granted the key has taken it.  Two calls are granted the key only if the earlier
one's record is gone, exactly if no misread lets a call replace the record of a granted one that is
not gone.** -/
theorem takers_exclude_iff (hmemory : (x.state 0).memory.Distinct) (hkey : ∀ i, (rec i).key = k)
    (hnames : Distinct names) :
    (∀ i, x.Granted i → ∃ n, x.Takes n i) ∧
    ((∀ m n i j, x.Granted i → x.Granted j → x.Takes m i → x.Takes n j → m < n →
      x.Gone k (rec i) m n) ↔
    ∀ m n i j, x.Granted i → x.Takes m i → x.Replaced n j → m < n → x.Untaken m n →
      x.Misread k i j m n → x.Gone k (rec i) m n) := by
  refine ⟨fun i granted => granted.takes, ?_, ?_⟩
  · intro exclude m n i j hi taken replaced hmn _ _
    exact exclude m n i j hi replaced.granted taken (.inr replaced) hmn
  · intro harmless m n i j hi hj taken taken' hmn
    -- the next call that takes the key decides, for what is gone stays gone
    classical
    have hex : ∃ l, m < l ∧ ∃ h, x.Takes l h := ⟨n, hmn, j, taken'⟩
    obtain ⟨hml, h, next⟩ := Nat.find_spec hex
    have hln : Nat.find hex ≤ n := Nat.find_min' hex ⟨hmn, j, taken'⟩
    have untaken : x.Untaken m (Nat.find hex) :=
      fun l hl hm h ht => Nat.find_min hex hl ⟨hm, h, ht⟩
    refine Gone.mono ?_ hln (Nat.le_of_lt taken'.lt_length)
    rcases taken_or_misread hmemory hkey hnames taken next hml untaken with
      gone | ⟨replaced, misread⟩
    · exact gone
    · exact harmless m _ i h hi taken replaced hml untaken misread

end Claims

/-! ### A repair that comes late

Two calls read the same orphan.  One of them replaces it and is granted the key; the
other one replaces it once more when the lock of the first one has run out.
-/

/-- Answers as the site does, on a clock that is moved on by so many milliseconds. -/
def player (ι : Type) : Player (scene ι) Nat where
  answer _ q s :=
    match q with
    | .now => (s.now, s)
    | .token => ("token", s)
    | .store op =>
      let next := FieldStore.Memory.answer s.now op s.memory
      (next.1, ⟨s.now, next.2⟩)
  drift d s := { s with now := s.now + d }
  answers _ q s := by
    cases q with
    | now => exact ⟨rfl, rfl⟩
    | token => rfl
    | store op => exact ⟨rfl, rfl⟩
  drifts d _ := ⟨Int.le_add_of_nonneg_right (Int.natCast_nonneg d), rfl⟩
  idles _ := ⟨Int.le_refl _, rfl⟩

def order : Key := ⟨"order"⟩

/-- What each of the two calls claims. -/
def rival (_ : Bool) : Record := ⟨order, .inProgress, some 3600, some 100000, none, none⟩

/-- The server with an orphan, half a second after its deadline. -/
def orphaned : Site :=
  ⟨1000, [("order", ⟨[("status", "INPROGRESS"), ("in_progress_expiration", "500")], none⟩)], false⟩

theorem initial_distinct : Distinct .initial :=
  ⟨by decide, by decide, by decide, by decide⟩

theorem orphaned_distinct : orphaned.memory.Distinct := by
  unfold FieldStore.Memory.Distinct Assoc.Distinct
  decide

/-- One call reads, the other one repairs, eleven seconds pass, and the first one repairs too. -/
def lateRepair : Claims .initial rival :=
  (player Bool).play orphaned _ (turns false 3 ++ turns true 7 ++ [.inr 11000] ++ turns false 4)

namespace Claims

theorem lateRepair_first : lateRepair.Replaced 9 true := ⟨some 3599, by decide, rfl⟩

theorem lateRepair_second : lateRepair.Replaced 14 false := ⟨some 3588, by decide, rfl⟩

theorem lateRepair_not_gone : ¬ lateRepair.Gone order (rival true) 9 14 := by
  have hthere : ∀ t ≤ 14, 9 < t → lateRepair.held order t ≠ none := by decide +kernel
  have hforce : (rival true).isOverdue (lateRepair.state 14).now = false := by decide +kernel
  rintro (⟨t, ht, hmt, hnone, -⟩ | hover)
  · exact hthere t ht hmt hnone
  · rw [hforce] at hover
    cases hover

/-- Two calls may be granted one key while the record of the first one is in force. -/
theorem grants_overlap :
    ¬ ∀ (rec : Bool → Record) (x : Claims .initial rec) (k : Key),
      (x.state 0).memory.Distinct → (∀ i, (rec i).key = k) →
      ∀ m n i j, x.Granted i → x.Granted j → x.Takes m i → x.Takes n j → m < n →
        x.Gone k (rec i) m n := by
  intro exclude
  exact lateRepair_not_gone (exclude rival lateRepair order orphaned_distinct (fun _ => rfl) 9 14
    true false lateRepair_first.granted lateRepair_second.granted (.inr lateRepair_first)
    (.inr lateRepair_second) (by omega))

/-- In the late repair a misread is what lets a call replace a record in force. -/
theorem lateRepair_misread :
    ∃ m n i j, lateRepair.Granted i ∧ lateRepair.Takes m i ∧ lateRepair.Replaced n j ∧ m < n ∧
      lateRepair.Untaken m n ∧ lateRepair.Misread order i j m n ∧
      ¬ lateRepair.Gone order (rival i) m n := by
  by_contra harmless
  have exclude := (takers_exclude_iff (x := lateRepair) orphaned_distinct (fun _ => rfl)
    initial_distinct).2.mpr (by
      intro m n i j hi taken replaced hmn untaken misread
      by_contra hgone
      exact harmless ⟨m, n, i, j, hi, taken, replaced, hmn, untaken, misread, hgone⟩)
  exact lateRepair_not_gone (exclude 9 14 true false lateRepair_first.granted
    lateRepair_second.granted (.inr lateRepair_first) (.inr lateRepair_second) (by omega))

end Claims

end AtMostOnce.Ledger.Fields
