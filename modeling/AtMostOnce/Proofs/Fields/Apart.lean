/-
Keys that do not interfere.

A derived key ends in the digits of its digest, and a lock is named by its key with `:lock`
behind it.  So the record and the lock of a key never go by the names that the record and
the lock of another key go by (`apart_of_derive`), although the server keeps all of them
under names of one kind.

What an operation answers, and what it leaves under its own name, depends on what is there
under that name alone (`answer_local`).  Every operation drops whatever has run out under any
name, but nobody sees that: an entry that has run out is not there for the next operation
either (`entry?_later`).  So the calls about one key go on as they are if the calls about
other keys are left out of an execution: each turn of those becomes a moment in which only
time passes (`only`).
-/
import AtMostOnce.Ledger.Memory
import AtMostOnce.Proofs.Fields.Alone
import AtMostOnce.Proofs.Fields.Calls
import AtMostOnce.Proofs.Key

namespace AtMostOnce

namespace FieldStore.Memory

variable {m m' : Memory} {now : Millis} {op : Operation}

/-- **What an operation answers and what it leaves under its name depends on what is there under
that name.** -/
theorem answer_local (h : m.Distinct) (h' : m'.Distinct) (sound : m.writeFails = false)
    (sound' : m'.writeFails = false) (same : m.entry? now op.key = m'.entry? now op.key) :
    (answer now op m).1 = (answer now op m').1 ∧
      entry? (answer now op m).2 now op.key = entry? (answer now op m').2 now op.key := by
  cases op with
  | claim key field value =>
    change (m.live now).get? key = (m'.live now).get? key at same
    dsimp only [Operation.key]
    rw [answer_claim, answer_claim, same]
    split
    · exact ⟨rfl, (entry?_of_live h rfl key).trans (same.trans (entry?_of_live h' rfl key).symm)⟩
    · refine ⟨rfl, (entry?_of_set h (some _) rfl key).trans (.trans ?_
        (entry?_of_set h' (some _) rfl key).symm)⟩
      rw [if_pos rfl, if_pos rfl, Option.some_or, Option.some_or]
  | write key fields ttl =>
    refine ⟨?_, ?_⟩
    · rw [answer_write, answer_write, sound, sound']
      rfl
    · change m.entry? now key = m'.entry? now key at same
      dsimp only [Operation.key]
      rw [entry?_write h sound, entry?_write h' sound', same]
  | read key =>
    refine ⟨?_, ?_⟩
    · change m.entry? now key = m'.entry? now key at same
      show Except.ok ((m.fields? now key).getD [], m.ttl now key) =
        Except.ok ((m'.fields? now key).getD [], m'.ttl now key)
      rw [fields?, fields?, ttl_eq, ttl_eq, same]
    · dsimp only [Operation.key]
      rw [entry?_read h, entry?_read h']
      exact same
  | lock key token ttl =>
    change (m.live now).get? key = (m'.live now).get? key at same
    dsimp only [Operation.key]
    rw [answer_lock, answer_lock, same]
    split
    · exact ⟨rfl, (entry?_of_live h rfl key).trans (same.trans (entry?_of_live h' rfl key).symm)⟩
    · refine ⟨rfl, (entry?_of_set h (some _) rfl key).trans (.trans ?_
        (entry?_of_set h' (some _) rfl key).symm)⟩
      rw [if_pos rfl, if_pos rfl, Option.some_or, Option.some_or]
  | replace key fields ttl =>
    refine ⟨rfl, ?_⟩
    dsimp only [Operation.key]
    rw [entry?_replace h, entry?_replace h']
  | delete key =>
    refine ⟨rfl, ?_⟩
    exact (entry?_of_erase h none rfl key).trans ((if_pos rfl).trans
      ((entry?_of_erase h' none rfl key).trans (if_pos rfl)).symm)

end FieldStore.Memory

namespace Ledger.Fields

open FieldStore

/-! ### Names on the server -/

/-- Does the record of a key or its lock go by the name? -/
def Belongs (k : Key) (name : String) : Prop := name = k.text ∨ name = lockName k

/-- No name belongs to both keys. -/
structure Apart (k k' : Key) : Prop where
  keys : k ≠ k'
  lock : lockName k ≠ k'.text
  lock' : lockName k' ≠ k.text

theorem lockName_inj {k k' : Key} (h : lockName k = lockName k') : k = k' := by
  have hl := congrArg String.toList h
  simp only [lockName, String.toList_append] at hl
  exact congrArg Key.mk (String.toList_inj.mp (List.append_cancel_right hl))

variable {k k' : Key}

theorem Apart.symm (h : Apart k k') : Apart k' k := ⟨h.keys.symm, h.lock', h.lock⟩

theorem Apart.not_belongs (h : Apart k k') {name : String} (hk : Belongs k name) :
    ¬ Belongs k' name := by
  rintro (hk' | hk')
  · rcases hk with rfl | rfl
    · exact h.keys (congrArg Key.mk hk')
    · exact h.lock hk'
  · rcases hk with rfl | rfl
    · exact h.lock' hk'.symm
    · exact h.keys (lockName_inj hk')

/-- A derived key ends in a digit of its digest, or in the separator. -/
theorem getLast?_derive {rule : KeyRule} {payload : Json.Value}
    (h : rule.derive payload = .ok k) : ∃ c, k.text.toList.getLast? = some c ∧
      (c = '#' ∨ Text.IsHexDigit c) := by
  obtain rfl := Engine.derive_eq h
  rw [Key.toList_compose, List.getLast?_append]
  generalize hd : rule.hash.ofValue (rule.selector.search payload) = digest
  cases hlast : digest.toList.getLast? with
  | none =>
    rw [List.getLast?_eq_none_iff.mp hlast]
    exact ⟨'#', rfl, .inl rfl⟩
  | some c =>
    rw [List.getLast?_cons, hlast]
    refine ⟨c, rfl, .inr ?_⟩
    have hmem := List.mem_of_getLast? hlast
    rw [← hd] at hmem
    exact HashFunction.isHexDigit_of_mem_hex hmem

theorem lockName_ne_derive {rule : KeyRule} {payload : Json.Value}
    (h : rule.derive payload = .ok k') : lockName k ≠ k'.text := by
  intro heq
  obtain ⟨c, hc, hcases⟩ := getLast?_derive h
  rw [← heq, lockName, String.toList_append, List.getLast?_append] at hc
  obtain rfl : 'k' = c := Option.some.inj hc
  rcases hcases with hsep | hdigit
  · exact absurd hsep (by decide)
  · exact absurd hdigit (by decide)

/-- **No name belongs to two different keys that were derived.** -/
theorem apart_of_derive {rule rule' : KeyRule} {payload payload' : Json.Value}
    (hk : rule.derive payload = .ok k) (hk' : rule'.derive payload' = .ok k') (hne : k ≠ k') :
    Apart k k' :=
  ⟨hne, lockName_ne_derive hk', lockName_ne_derive hk⟩

/-! ### Leaving out the calls about other keys -/

theorem Steps.belongs {names : FieldNames} {q : Ledger.Request} {op : Operation}
    (h : Steps names q op) : Belongs q.key op.key := by
  cases h with
  | locks r token ttl => exact .inr rfl
  | _ => exact .inl rfl

/-- The calls that are about a key. -/
abbrev About {ι : Type} (req : ι → Ledger.Request) (k : Key) := { i : ι // (req i).key = k }

namespace Calls

variable {ι : Type} [DecidableEq ι] {names : FieldNames} {req : ι → Ledger.Request}
  (x : Calls names req)

/-- What the server holds under the name of a key's lock before the `n`-th event. -/
def lockHeld (k : Key) (n : Nat) : Option Entry :=
  (x.state n).memory.entry? (x.state n).now (lockName k)

/-- The `n`-th event, or the passing of time in place of a turn of a call about another key. -/
def eventAbout (k : Key) (n : Nat) : Execution.Event (About req k) Request Request.Answer :=
  match x.event n with
  | .exchange i q a => if h : (req i).key = k then .exchange ⟨i, h⟩ q a else .drift
  | .drift => .drift

/-- The server's memory before the `n`-th event if it is asked by the calls about a key only. -/
def memoryAbout (k : Key) : Nat → FieldStore.Memory
  | 0 => (x.state 0).memory
  | n + 1 =>
    match x.eventAbout k n with
    | .exchange _ (.store op) _ => (FieldStore.Memory.answer (x.state n).now op (memoryAbout k n)).2
    | _ => memoryAbout k n

variable {x} {n : Nat}

theorem eventAbout_of_key {i : ι} {q : Request} {a : q.Answer} (hs : x.Says n i q a)
    (hi : (req i).key = k) : x.eventAbout k n = .exchange ⟨i, hi⟩ q a := by
  rw [eventAbout, hs.2]
  exact dif_pos hi

theorem eventAbout_of_ne {i : ι} {q : Request} {a : q.Answer} (hs : x.Says n i q a)
    (hi : (req i).key ≠ k) : x.eventAbout k n = .drift := by
  rw [eventAbout, hs.2]
  exact dif_neg hi

theorem memoryAbout_said {i : ι} {op : Operation} {a : op.Answer} (hs : x.Says n i (.store op) a)
    (hi : (req i).key = k) : x.memoryAbout k (n + 1) =
      (FieldStore.Memory.answer (x.state n).now op (x.memoryAbout k n)).2 := by
  rw [memoryAbout, eventAbout_of_key hs hi]

variable (x) in
/-- No call about the key asks for an operation in the `n`-th event. -/
def Silent (k : Key) (n : Nat) : Prop := ¬ ∃ i op a, x.Says n i (.store op) a ∧ (req i).key = k

theorem Says.silent_of_ne {i : ι} {q : Request} {a : q.Answer} (hs : x.Says n i q a)
    (hi : (req i).key ≠ k) : x.Silent k n := by
  rintro ⟨j, op, a', hs', hj⟩
  rw [(hs.unique hs').1] at hi
  exact hi hj

theorem memoryAbout_silent (hs : x.Silent k n) (hn : n < x.length) :
    x.memoryAbout k (n + 1) = x.memoryAbout k n := by
  rw [memoryAbout]
  split
  · rename_i i op a he
    refine absurd ⟨i.1, op, a, ?_, i.2⟩ hs
    unfold eventAbout at he
    split at he
    · rename_i i' q a' hx
      split at he
      · cases he
        exact ⟨hn, hx⟩
      · cases he
    · cases he
  · rfl

theorem Says.silent_of_unasked {i : ι} {q : Request} {a : q.Answer} (hs : x.Says n i q a)
    (hq : ∀ op, q ≠ .store op) : x.Silent k n := by
  rintro ⟨j, op, a', hs', -⟩
  exact hq op (hs.unique hs').2.1

end Calls

/-- What the calls about a key see of two memories is the same. -/
structure AgreesAbout (k : Key) (now : Millis) (m m' : FieldStore.Memory) : Prop where
  sound : m.Sound
  sound' : m'.Sound
  entries : ∀ name, Belongs k name → m.entry? now name = m'.entry? now name

section

variable {now time : Millis} {m m' : FieldStore.Memory} {op : Operation}

theorem AgreesAbout.later (h : AgreesAbout k now m m') (hle : now ≤ time) :
    AgreesAbout k time m m' where
  sound := h.sound
  sound' := h.sound'
  entries name hname := by
    rw [FieldStore.Memory.entry?_later h.sound.distinct hle,
      FieldStore.Memory.entry?_later h.sound'.distinct hle, h.entries name hname]

/-- An operation of a call about the key is answered alike, and leaves the same. -/
theorem AgreesAbout.answer (h : AgreesAbout k now m m') (hop : Belongs k op.key) :
    (FieldStore.Memory.answer now op m).1 = (FieldStore.Memory.answer now op m').1 ∧
      AgreesAbout k now (FieldStore.Memory.answer now op m).2
        (FieldStore.Memory.answer now op m').2 := by
  obtain ⟨hanswer, hentry⟩ := FieldStore.Memory.answer_local h.sound.distinct
    h.sound'.distinct h.sound.writes h.sound'.writes (h.entries op.key hop)
  refine ⟨hanswer, h.sound.answer now op, h.sound'.answer now op, fun name hname => ?_⟩
  by_cases hkey : op.key = name
  · subst hkey
    exact hentry
  · rw [FieldStore.Memory.entry?_answer_of_ne h.sound.distinct hkey,
      FieldStore.Memory.entry?_answer_of_ne h.sound'.distinct hkey]
    exact h.entries name hname

/-- An operation of another call does nothing that the calls about the key see. -/
theorem AgreesAbout.answer_other (h : AgreesAbout k now m m') (hop : ¬ Belongs k op.key) :
    AgreesAbout k now (FieldStore.Memory.answer now op m).2 m' where
  sound := h.sound.answer now op
  sound' := h.sound'
  entries name hname := by
    have hkey : op.key ≠ name := by
      rintro rfl
      exact hop hname
    rw [FieldStore.Memory.entry?_answer_of_ne h.sound.distinct hkey]
    exact h.entries name hname

end

namespace Calls

variable {ι : Type} [DecidableEq ι] {names : FieldNames} {req : ι → Ledger.Request}
  {x : Calls names req} {n : Nat}

section

variable (sound : (x.state 0).memory.Sound) (apart : ∀ i, (req i).key = k ∨ Apart k (req i).key)

include sound apart

/-- **The calls about a key see the same of the server if it is asked by nobody else.** -/
theorem agreesAbout (hn : n ≤ x.length) :
    AgreesAbout k (x.state n).now (x.state n).memory (x.memoryAbout k n) := by
  induction n with
  | zero => exact ⟨sound, sound, fun _ _ => rfl⟩
  | succ n ih =>
    have before := ih (Nat.le_of_lt hn)
    by_cases hsaid : ∃ i op a, x.Says n i (.store op) a
    · obtain ⟨i, op, a, hs⟩ := hsaid
      obtain ⟨hm, hnow⟩ := carried_out hs
      have hbelongs := (steps hs).belongs
      have hafter : (FieldStore.Memory.answer (x.state n).now op (x.state n).memory).2 =
          (x.state (n + 1)).memory := congrArg Prod.snd hm
      rw [hnow, ← hafter]
      by_cases hi : (req i).key = k
      · rw [hi] at hbelongs
        rw [memoryAbout_said hs hi]
        exact (before.answer hbelongs).2
      · rw [memoryAbout_silent (Says.silent_of_ne hs hi) hn]
        have hapart := (apart i).resolve_left hi
        exact before.answer_other (hapart.symm.not_belongs hbelongs)
    · have silent : x.Silent k n := by
        rintro ⟨i, op, a, hs, -⟩
        exact hsaid ⟨i, op, a, hs⟩
      rw [memoryAbout_silent silent hn, (memory_succ hn).resolve_right hsaid]
      exact before.later (now_succ hn)

variable (k) in
omit sound apart in
theorem talk_about {i : ι} {d : Dialogue Request Request.Answer Reply} (hi : (req i).key = k) :
    (fun j : About req k => Function.update (x.talk n) i d j.1) =
      Function.update (fun j : About req k => x.talk n j.1) ⟨i, hi⟩ d := by
  funext j
  by_cases hj : j = ⟨i, hi⟩
  · rw [hj, Function.update_self, Function.update_self]
  · have hne : j.1 ≠ i := fun h => hj (Subtype.ext h)
    rw [Function.update_of_ne hj, Function.update_of_ne hne]

theorem step_about (hn : n < x.length) :
    (scene (About req k)).Step ⟨(x.state n).now, x.memoryAbout k n⟩ (fun i => x.talk n i.1)
      ⟨(x.state (n + 1)).now, x.memoryAbout k (n + 1)⟩ (fun i => x.talk (n + 1) i.1)
      (x.eventAbout k n) := by
  have hs := x.step n hn
  cases he : x.event n with
  | drift =>
    have silent : x.Silent k n := by
      rintro ⟨i, op, a, ⟨-, hs⟩, -⟩
      rw [he] at hs
      cases hs
    have hevent : x.eventAbout k n = .drift := by rw [eventAbout, he]
    rw [he] at hs
    rw [hevent, hs.2]
    exact ⟨⟨now_succ hn, memoryAbout_silent silent hn⟩, rfl⟩
  | exchange i q a =>
    have hsaid : x.Says n i q a := ⟨hn, he⟩
    rw [he] at hs
    obtain ⟨next, hask, -, htalk⟩ := hs
    by_cases hi : (req i).key = k
    · rw [eventAbout_of_key hsaid hi, htalk]
      refine ⟨next, hask, ?_, talk_about k hi⟩
      cases q with
      | now =>
        obtain ⟨ht, hstate⟩ := hsaid.answers
        exact ⟨ht, by rw [memoryAbout_silent (Says.silent_of_unasked hsaid nofun) hn, hstate]⟩
      | token =>
        have hstate : x.state (n + 1) = x.state n := hsaid.answers
        show Site.mk _ _ = Site.mk _ _
        rw [memoryAbout_silent (Says.silent_of_unasked hsaid nofun) hn, hstate]
      | store op =>
        obtain ⟨hm, hnow⟩ := carried_out hsaid
        have hbelongs := (steps hsaid).belongs
        rw [hi] at hbelongs
        have hanswer := ((agreesAbout sound apart (Nat.le_of_lt hn)).answer hbelongs).1
        rw [hm] at hanswer
        exact ⟨Prod.ext hanswer.symm (memoryAbout_said hsaid hi).symm, hnow⟩
    · rw [eventAbout_of_ne hsaid hi, htalk]
      refine ⟨⟨now_succ hn, memoryAbout_silent (Says.silent_of_ne hsaid hi) hn⟩, ?_⟩
      funext j
      have hne : j.1 ≠ i := by
        rintro rfl
        exact hi j.2
      rw [Function.update_of_ne hne]

variable (x) in
/-- The execution with the calls about other keys left out. -/
def only : Calls names fun i : About req k => req i where
  length := x.length
  state n := ⟨(x.state n).now, x.memoryAbout k n⟩
  talk n i := x.talk n i
  event := x.eventAbout k
  talk_zero := by rw [x.talk_zero]
  step _ := step_about sound apart

end

/-! ### Executions without the calls about other keys -/

/-- The second execution is the first one without the calls about other keys: it begins with the
same server, the clock goes the same, and the calls that are left have their turns when they had
them and draw the same tokens. -/
structure Omits (x : Calls names req) (k : Key) (y : Calls names fun i : About req k => req i) :
    Prop where
  length : y.length = x.length
  first : y.state 0 = x.state 0
  clock : ∀ n ≤ x.length, (y.state n).now = (x.state n).now
  turns : ∀ n < x.length,
    (y.event n).who?.map Subtype.val = (x.event n).who?.filter fun i => (req i).key = k
  tokens : ∀ n i t t', y.Says n i .token t → x.Says n i .token t' → t = t'

variable {y : Calls names fun i : About req k => req i}

theorem Omits.drift (h : x.Omits k y) (hn : n < x.length)
    (other : ∀ i q a, x.Says n i q a → (req i).key ≠ k) : y.event n = .drift := by
  have hturn := h.turns n hn
  have hnobody : ((x.event n).who?.filter fun i => (req i).key = k) = none := by
    cases he : x.event n with
    | drift => rfl
    | exchange i q a => exact Option.filter_eq_none_iff.mpr (by
        rintro j ⟨⟩
        simpa using other i q a ⟨hn, he⟩)
  rw [hnobody] at hturn
  cases hy : y.event n with
  | drift => rfl
  | exchange i q a =>
    rw [hy] at hturn
    cases hturn

theorem Omits.exchange (h : x.Omits k y) {i : ι} {q : Request} {a : q.Answer}
    (hs : x.Says n i q a) (hi : (req i).key = k) : ∃ q' a', y.Says n ⟨i, hi⟩ q' a' := by
  have hturn := h.turns n hs.1
  rw [hs.who, Option.filter_some, if_pos (decide_eq_true hi)] at hturn
  cases hy : y.event n with
  | drift =>
    rw [hy] at hturn
    cases hturn
  | exchange j q' a' =>
    rw [hy] at hturn
    obtain rfl : j.1 = i := Option.some.inj hturn
    exact ⟨q', a', by rw [h.length]; exact hs.1, hy⟩

/-- What someone says is what his dialogue asks, and the dialogue goes on from there. -/
theorem talk_said {ι' : Type} [DecidableEq ι'] {req' : ι' → Ledger.Request}
    {z : Calls names req'} {i : ι'} {q : Request} {a : q.Answer} (hs : z.Says n i q a) :
    ∃ next, z.talk n i = .ask q next ∧
      z.talk (n + 1) = Function.update (z.talk n) i (next a) := by
  have hstep := z.step n hs.1
  rw [hs.2] at hstep
  obtain ⟨next, hask, -, htalk⟩ := hstep
  exact ⟨next, hask, htalk⟩

theorem talk_unsaid {i : ι} (hn : n < x.length) (silent : ∀ q a, ¬ x.Says n i q a) :
    x.talk (n + 1) i = x.talk n i := by
  have hstep := x.step n hn
  cases he : x.event n with
  | drift =>
    rw [he] at hstep
    rw [hstep.2]
  | exchange j q a =>
    have hne : i ≠ j := by
      rintro rfl
      exact silent q a ⟨hn, he⟩
    rw [he] at hstep
    obtain ⟨next, -, -, htalk⟩ := hstep
    rw [htalk, Function.update_of_ne hne]

section

variable (sound : (x.state 0).memory.Sound) (apart : ∀ i, (req i).key = k ∨ Apart k (req i).key)

include sound apart

/-- A turn of a call about the key, in which it is answered alike. -/
theorem Omits.said (h : x.Omits k y) {i : ι} {q : Request} {a : q.Answer} (hs : x.Says n i q a)
    (hi : (req i).key = k) (htalk : y.talk n ⟨i, hi⟩ = x.talk n i)
    (hmemory : (y.state n).memory = x.memoryAbout k n) : y.Says n ⟨i, hi⟩ q a := by
  obtain ⟨q', a', hy⟩ := h.exchange hs hi
  obtain ⟨next, hask, -⟩ := talk_said hs
  obtain ⟨next', hask', -⟩ := talk_said hy
  rw [hask', hask] at htalk
  cases htalk
  have hclock := h.clock n (Nat.le_of_lt hs.1)
  have same : a' = a := by
    cases q with
    | now =>
      have hx : a = (x.state n).now := hs.answers.1
      have hy : a' = (y.state n).now := hy.answers.1
      rw [hx, hy, hclock]
    | token => exact h.tokens n _ a' a hy hs
    | store op =>
      have hbelongs := (steps hs).belongs
      rw [hi] at hbelongs
      have hanswer := ((agreesAbout sound apart (Nat.le_of_lt hs.1)).answer hbelongs).1
      have hx := congrArg Prod.fst (carried_out hs).1
      have hy := congrArg Prod.fst (carried_out hy).1
      rw [hclock, hmemory] at hy
      exact hy.symm.trans (hanswer.symm.trans hx)
  rw [same] at hy
  exact hy

/-- **There is one way in which the execution without the other calls can go.** -/
theorem Omits.determined (h : x.Omits k y) (hn : n ≤ x.length) :
    (y.talk n = fun i : About req k => x.talk n i) ∧ (y.state n).memory = x.memoryAbout k n := by
  induction n with
  | zero => exact ⟨by rw [y.talk_zero, x.talk_zero], by rw [h.first]; rfl⟩
  | succ n ih =>
    obtain ⟨htalk, hmemory⟩ := ih (Nat.le_of_lt hn)
    by_cases hother : ∀ i q a, x.Says n i q a → (req i).key ≠ k
    · have hdrift := y.step n (by rw [h.length]; exact hn)
      rw [h.drift hn hother] at hdrift
      have silent : x.Silent k n := by
        rintro ⟨i, op, a, hs, hi⟩
        exact hother i _ a hs hi
      rw [hdrift.2, hdrift.1.2, htalk, hmemory, memoryAbout_silent silent hn]
      refine ⟨funext fun j => ?_, rfl⟩
      exact (talk_unsaid hn fun q a hs => hother j q a hs j.2).symm
    · push Not at hother
      obtain ⟨i, q, a, hs, hi⟩ := hother
      have hy := h.said sound apart hs hi (congrFun htalk ⟨i, hi⟩) hmemory
      obtain ⟨next, hask, hx'⟩ := talk_said hs
      obtain ⟨next', hask', hy'⟩ := talk_said hy
      rw [htalk] at hask'
      cases hask.symm.trans hask'
      refine ⟨by rw [hx', hy', htalk, talk_about k hi], ?_⟩
      have hclock := h.clock n (Nat.le_of_lt hn)
      cases q with
      | now =>
        rw [hy.answers.2, hmemory, memoryAbout_silent (Says.silent_of_unasked hs nofun) hn]
      | token =>
        have hstate : y.state (n + 1) = y.state n := hy.answers
        rw [hstate, hmemory, memoryAbout_silent (Says.silent_of_unasked hs nofun) hn]
      | store op =>
        have hafter := congrArg Prod.snd (carried_out hy).1
        rw [hclock, hmemory] at hafter
        rw [memoryAbout_said hs hi]
        exact hafter.symm

theorem omits_only : x.Omits k (x.only sound apart) where
  length := rfl
  first := rfl
  clock _ _ := rfl
  turns n hn := by
    show (x.eventAbout k n).who?.map Subtype.val = _
    unfold eventAbout
    cases x.event n with
    | drift => rfl
    | exchange i q a =>
      by_cases hi : (req i).key = k
      · simp [hi, Execution.Event.who?, Option.filter_some]
      · simp [hi, Execution.Event.who?, Option.filter_some]
  tokens n i t t' hy hx := by
    have he : x.eventAbout k n = .exchange i .token t := hy.2
    rw [eventAbout_of_key hx i.2] at he
    cases he
    rfl

omit sound apart in
/-- The calls about the key ask and are told the same in both executions, and the record of the key
and its lock are the same. -/
structure Alike (x : Calls names req) (k : Key) (y : Calls names fun i : About req k => req i) :
    Prop where
  said : ∀ n (i : About req k) q a, y.Says n i q a ↔ x.Says n i q a
  talk : ∀ n ≤ x.length, ∀ i : About req k, y.talk n i = x.talk n i
  record : ∀ n ≤ x.length, y.held k n = x.held k n
  lock : ∀ n ≤ x.length, y.lockHeld k n = x.lockHeld k n

theorem Omits.alike (h : x.Omits k y) : Alike x k y where
  said n i q a := by
    constructor
    · intro hy
      have hn : n < x.length := by
        rw [← h.length]
        exact hy.1
      have hturn := h.turns n hn
      rw [hy.who] at hturn
      obtain ⟨hwho, -⟩ := Option.filter_eq_some_iff.mp hturn.symm
      cases he : x.event n with
      | drift =>
        rw [he] at hwho
        cases hwho
      | exchange j q' a' =>
        rw [he] at hwho
        obtain rfl : j = i.1 := Option.some.inj hwho
        have hx : x.Says n i.1 q' a' := ⟨hn, he⟩
        obtain ⟨htalk, hmemory⟩ := h.determined sound apart (Nat.le_of_lt hn)
        have hy' := h.said sound apart hx i.2 (congrFun htalk i) hmemory
        obtain ⟨-, rfl, rfl⟩ := hy.unique hy'
        exact hx
    · intro hx
      obtain ⟨htalk, hmemory⟩ := h.determined sound apart (Nat.le_of_lt hx.1)
      exact h.said sound apart hx i.2 (congrFun htalk i) hmemory
  talk n hn i := congrFun (h.determined sound apart hn).1 i
  record n hn := by
    rw [held, held, (h.determined sound apart hn).2, h.clock n hn]
    exact ((agreesAbout sound apart hn).entries _ (.inl rfl)).symm
  lock n hn := by
    rw [lockHeld, lockHeld, (h.determined sound apart hn).2, h.clock n hn]
    exact ((agreesAbout sound apart hn).entries _ (.inr rfl)).symm

end

end Calls

end Ledger.Fields

/-! ### The ledger in memory -/

namespace Ledger.Memory

open Fields (Reply)

/-- Answers requests one after the other, each at a time of its own. -/
def answers : List (Millis × Request) → Memory → List Reply × Memory
  | [], m => ([], m)
  | (now, q) :: rest, m =>
    let next := answers rest (answer now q m).2
    (⟨q, (answer now q m).1⟩ :: next.1, next.2)

variable {k : Key} {m m' : Memory} {now : Millis} {q : Request}

theorem get?_put (m : Memory) (r : Record) : (m.put r).get? r.key = some r :=
  (Assoc.get?_insert _ _ _ _).trans (if_pos rfl)

theorem get?_removed (m : Memory) (k : Key) : (Assoc.erase m k).get? k = none :=
  (Assoc.get?_erase _ _ _).trans (if_pos rfl)

theorem get?_answer_of_ne (h : q.key ≠ k) : (answer now q m).2.get? k = m.get? k := by
  cases q with
  | claim r =>
    rw [answer]
    split
    · exact (Assoc.get?_insert _ _ _ _).trans (if_neg h)
    · rfl
  | find key =>
    rw [answer]
    split <;> rfl
  | complete r => exact (Assoc.get?_insert _ _ _ _).trans (if_neg h)
  | remove key => exact (Assoc.get?_erase _ _ _).trans (if_neg h)

/-- What a request is answered and what it leaves under its key depends on what is there. -/
theorem answer_local (same : m.get? q.key = m'.get? q.key) :
    (answer now q m).1 = (answer now q m').1 ∧
      (answer now q m).2.get? q.key = (answer now q m').2.get? q.key := by
  cases q with
  | claim r =>
    have hfree : m.isFree r.key now = m'.isFree r.key now := by
      unfold isFree
      rw [show m.get? r.key = m'.get? r.key from same]
    simp only [answer, hfree]
    split
    · exact ⟨rfl, (get?_put m r).trans (get?_put m' r).symm⟩
    · exact ⟨rfl, same⟩
  | find key =>
    simp only [answer, show m.get? key = m'.get? key from same]
    split
    · exact ⟨rfl, same⟩
    · exact ⟨rfl, same⟩
  | complete r => exact ⟨rfl, (get?_put m r).trans (get?_put m' r).symm⟩
  | remove key => exact ⟨rfl, (get?_removed m key).trans (get?_removed m' key).symm⟩

/-- The requests about a key are answered alike without the other ones, and leave the same. -/
theorem answers_about (requests : List (Millis × Request)) (same : m.get? k = m'.get? k) :
    (answers (requests.filter fun x => x.2.key = k) m').1 =
        (answers requests m).1.filter (fun reply => reply.1.key = k) ∧
      (answers (requests.filter fun x => x.2.key = k) m').2.get? k =
        (answers requests m).2.get? k := by
  induction requests generalizing m m' with
  | nil => exact ⟨rfl, same.symm⟩
  | cons x rest ih =>
    obtain ⟨now, q⟩ := x
    by_cases hq : q.key = k
    · subst hq
      obtain ⟨hanswer, hleft⟩ : (answer now q m).1 = (answer now q m').1 ∧
        (answer now q m).2.get? q.key = (answer now q m').2.get? q.key := answer_local same
      obtain ⟨hreplies, hget⟩ := ih hleft
      simp only [answers, List.filter_cons, decide_true, if_true, hreplies, hget, hanswer,
        and_self]
    · have hleft : (answer now q m).2.get? k = m'.get? k := (get?_answer_of_ne hq).trans same
      obtain ⟨hreplies, hget⟩ := ih hleft
      simp only [answers, List.filter_cons, hq, decide_false, Bool.false_eq_true, if_false,
        hreplies, hget, and_self]

end Ledger.Memory

namespace Ledger.Fields

/-- Is the key one that some payload has by some rule? -/
def Derived (k : Key) : Prop :=
  ∃ (rule : KeyRule) (payload : Json.Value), rule.derive payload = .ok k

theorem Derived.apart {k k' : Key} (hk : Derived k) (hk' : Derived k') (hne : k ≠ k') :
    Apart k k' := by
  obtain ⟨rule, payload, hk⟩ := hk
  obtain ⟨rule', payload', hk'⟩ := hk'
  exact apart_of_derive hk hk' hne

/-- **Derived keys do not interfere.**  Their records and locks go by names of their own.  In memory
and on a server of fields the calls about one key are told the same, and leave the same under that
key, if the calls about the other keys are left out. -/
theorem derived_keys_independent {k : Key} (hk : Derived k) :
    (lockName k ≠ k.text ∧ ∀ k', Derived k' → k ≠ k' →
      lockName k ≠ k'.text ∧ lockName k' ≠ k.text ∧ lockName k ≠ lockName k') ∧
    (∀ (requests : List (Millis × Ledger.Request)) (m : Memory),
      (Memory.answers (requests.filter fun x => x.2.key = k) m).1 =
          (Memory.answers requests m).1.filter (fun reply => reply.1.key = k) ∧
        (Memory.answers (requests.filter fun x => x.2.key = k) m).2.get? k =
          (Memory.answers requests m).2.get? k) ∧
    ∀ {ι : Type} [DecidableEq ι] {names : FieldNames} {req : ι → Ledger.Request}
      (x : Calls names req), (x.state 0).memory.Sound → (∀ i, Derived (req i).key) →
      (∃ y, x.Omits k y) ∧ ∀ y, x.Omits k y → Calls.Alike x k y := by
  refine ⟨⟨Claims.lockName_ne k, fun k' hk' hne => ?_⟩, fun requests m => ?_, ?_⟩
  · have hapart := hk.apart hk' hne
    exact ⟨hapart.lock, hapart.lock', fun h => hne (lockName_inj h)⟩
  · exact Memory.answers_about requests rfl
  · intro ι _ names req x sound derived
    have apart : ∀ i, (req i).key = k ∨ Apart k (req i).key := by
      intro i
      by_cases hi : (req i).key = k
      · exact .inl hi
      · exact .inr (hk.apart (derived i) (Ne.symm hi))
    exact ⟨⟨_, Calls.omits_only sound apart⟩, fun y h => h.alike sound apart⟩

/-! Two functions have one payload each.  The first one's record is claimed and completed while the
second one's is claimed and removed. -/

/-- The rule of a function that takes the whole payload. -/
def wholePayload (scope : String) : KeyRule := ⟨scope, .identity, .blake2b128, false⟩

/-- The key of one order for a function. -/
def orderOf (scope : String) : Key := ⟨scope ++ "#a187fc0ecc74a5db7adffc9c7e901dfe"⟩

theorem orderOf_derived (scope : String) : Derived (orderOf scope) := by
  have hdigest : HashFunction.ofValue .blake2b128 (.string "order") =
      "a187fc0ecc74a5db7adffc9c7e901dfe" := by decide +kernel
  refine ⟨wholePayload scope, .string "order", congrArg (fun text => Except.ok (Key.mk text)) ?_⟩
  show scope ++ "#" ++ HashFunction.ofValue .blake2b128 (.string "order") = _
  rw [hdigest, String.append_assoc]
  rfl

/-- The calls of the two functions. -/
inductive Clerk where
  | charger
  | finisher
  | refunder
  | remover
  deriving DecidableEq

def Clerk.request : Clerk → Ledger.Request
  | charger => .claim ⟨orderOf "charge", .inProgress, some 3600, some 100000, none, none⟩
  | finisher => .complete ⟨orderOf "charge", .completed, some 3600, none, some "paid", none⟩
  | refunder => .claim ⟨orderOf "refund", .inProgress, some 60, some 100000, none, none⟩
  | remover => .remove (orderOf "refund")

/-- Calls about two keys, with two minutes between them. -/
def counters : Calls .initial Clerk.request :=
  (player Clerk).play ⟨0, .empty⟩ _
    (turns .charger 1 ++ turns .refunder 2 ++ turns .charger 2 ++ [.inr 120000] ++
      turns .remover 1 ++ turns .finisher 2)

/-- Without the calls about the refund the order is charged all the same. -/
theorem counters_apart :
    lockName (orderOf "refund") ≠ (orderOf "charge").text ∧
      ∃ y, counters.Omits (orderOf "charge") y ∧ y.held (orderOf "charge") 9 ≠ none ∧
        ∃ i, y.Ends i ⟨.complete ⟨orderOf "charge", .completed, some 3600, none, some "paid", none⟩,
          .ok ()⟩ := by
  obtain ⟨⟨-, names⟩, -, calls⟩ := derived_keys_independent (orderOf_derived "charge")
  have derived : ∀ i : Clerk, Derived i.request.key := by
    intro i
    cases i <;> exact orderOf_derived _
  obtain ⟨⟨y, omitted⟩, alike⟩ := calls counters FieldStore.Memory.sound_empty derived
  have same := alike y omitted
  refine ⟨(names _ (orderOf_derived "refund") (by decide)).2.1, y, omitted, ?_, ?_⟩
  · rw [same.record 9 (by decide)]
    decide +kernel
  · refine ⟨⟨.finisher, rfl⟩, 9, by rw [omitted.length]; decide, ?_⟩
    rw [same.talk 9 (by decide)]
    rfl

end Ledger.Fields

end AtMostOnce
