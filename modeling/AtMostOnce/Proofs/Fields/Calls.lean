/-
Calls of every kind that take turns at a server of fields.

Each request is carried out by few operations (`Steps`), so what happens to a field is
read off the events: some event put it there, and since then none has put it again and the
key was there (`Written`).
-/
import AtMostOnce.Proofs.Fields.Taking
import AtMostOnce.Proofs.Fields.Written

namespace AtMostOnce.Ledger.Fields

open Dialogue FieldStore

/-! ### What a request asks of the server -/

/-- The operations that carry out a request. -/
inductive Steps (names : FieldNames) : Ledger.Request → Operation → Prop
  | claims (r : Record) :
    Steps names (.claim r) (.claim r.key.text names.status Status.inProgress.name)
  | fills (r : Record) (ttl : Option Int) :
    Steps names (.claim r) (.write r.key.text (claimFields names r) ttl)
  | looks (r : Record) : Steps names (.claim r) (.read r.key.text)
  | locks (r : Record) (token : String) (ttl : Int) :
    Steps names (.claim r) (.lock (lockName r.key) token ttl)
  | replaces (r : Record) (ttl : Option Int) :
    Steps names (.claim r) (.replace r.key.text (orphanFields names r) ttl)
  | completes (r : Record) (ttl : Option Int) :
    Steps names (.complete r) (.write r.key.text (completedFields names r) ttl)
  | finds (key : Key) : Steps names (.find key) (.read key.text)
  | removes (key : Key) : Steps names (.remove key) (.delete key.text)

/-- A request and its answer. -/
abbrev Reply := Σ q : Ledger.Request, q.Answer

/-- Carries out a request, and says which. -/
def call (names : FieldNames) (q : Ledger.Request) : Action Reply :=
  perform names q >>= fun a => .done ⟨q, a⟩

variable {names : FieldNames}

theorem steps_of_allows {r : Record} {s : SavePhase} {op : Operation}
    (h : allows names r s (.store op)) : Steps names (.claim r) op := by
  cases op with
  | claim key field value =>
    obtain ⟨-, rfl, rfl, rfl⟩ := h
    exact .claims r
  | write key fields ttl =>
    obtain ⟨-, rfl, rfl⟩ := h
    exact .fills r ttl
  | read key =>
    obtain ⟨-, rfl⟩ := h
    exact .looks r
  | lock key token ttl =>
    obtain ⟨-, rfl⟩ := h
    exact .locks r token ttl
  | replace key fields ttl =>
    obtain ⟨-, rfl, rfl⟩ := h
    exact .replaces r ttl
  | delete key => exact h.elim

theorem call_follows_claim (r : Record) :
    (call names (.claim r)).Follows (protocol names r) (fun _ _ => True) .starting :=
  (follows_bind (claim names r) _ _).mpr ((claim_follows names r).mono fun _ _ _ => trivial)

/-- What a request other than a claim keeps to; its phase is what was read. -/
@[reducible] def reading (names : FieldNames) (q : Ledger.Request) :
    Protocol Request Request.Answer (Option (Except Error (Fields × Int))) where
  allows _ q' := ∀ op, q' = .store op → Steps names q op
  accepts _ _ := True
  after s
    | .store (.read _), a => some a
    | _, _ => s

/-- The server has failed, or what was read has no status that can be read. -/
def Unreadable (names : FieldNames) (read : Option (Except Error (Fields × Int))) : Prop :=
  (∃ e, read = some (.error e)) ∨
    ∃ fields ttl, read = some (.ok (fields, ttl)) ∧ fields ≠ [] ∧
      ∃ e, Status.parse ((fields.get? names.status).getD "") = .error e

section

variable {β : Type} {q : Ledger.Request} {read : Option (Except Error (Fields × Int))}
  {ends : Option (Except Error (Fields × Int)) → β → Prop}

theorem follows_now {f : Millis → Action β}
    (h : ∀ t, (f t).Follows (reading names q) ends read) :
    (now >>= f).Follows (reading names q) ends read :=
  ⟨nofun, fun t _ => h t⟩

theorem follows_lifetime {r : Record} {f : Option Int → Action β}
    (h : ∀ ttl, (f ttl).Follows (reading names q) ends read) :
    (ttlOf r >>= f).Follows (reading names q) ends read := by
  unfold ttlOf ttlM
  cases r.expiry with
  | none => exact h none
  | some expiry => exact follows_now fun t => h _

end

theorem call_follows_complete (r : Record) :
    (call names (.complete r)).Follows (reading names (.complete r)) (fun _ _ => True) none := by
  refine (follows_bind _ _ _).mpr (follows_lifetime fun ttl => ⟨?_, fun _ _ => trivial⟩)
  rintro op ⟨⟩
  exact .completes r ttl

theorem call_follows_remove (key : Key) :
    (call names (.remove key)).Follows (reading names (.remove key)) (fun _ _ => True) none := by
  refine ⟨?_, fun _ _ => trivial⟩
  rintro op ⟨⟩
  exact .removes key

/-- A record is found unreadable only if what was read is. -/
theorem call_follows_find (key : Key) :
    (call names (.find key)).Follows (reading names (.find key))
      (fun read reply => ∀ s, reply = ⟨.find key, .error (.invalidStatus s)⟩ →
        Unreadable names read) none := by
  refine ⟨?_, fun a _ => ?_⟩
  · rintro op ⟨⟩
    exact .finds key
  cases a with
  | error e => exact fun _ _ => .inl ⟨e, rfl⟩
  | ok shown =>
    obtain ⟨fields, ttl⟩ := shown
    refine (follows_bind (if fields.isEmpty then Dialogue.done (.error (.itemNotFound key))
      else recordOf names key fields ttl) _ _).mpr ?_
    split
    · nofun
    · rename_i hempty
      unfold recordOf recordM
      split
      · rename_i e he
        exact fun _ _ => .inr ⟨fields, ttl, rfl, fun h => hempty (by rw [h]; rfl), e, he⟩
      · by_cases httl : 0 ≤ ttl
        · rw [if_pos httl]
          exact follows_now fun t => nofun
        · rw [if_neg httl]
          nofun

/-- **Every request is carried out by its operations.** -/
theorem call_follows_steps (names : FieldNames) (q : Ledger.Request) :
    ∃ (τ : Type) (P : Protocol Request Request.Answer τ) (first : τ),
      (∀ q' a, P.accepts q' a) ∧ (∀ s op, P.allows s (.store op) → Steps names q op) ∧
        (call names q).Follows P (fun _ _ => True) first := by
  cases q with
  | claim r =>
    exact ⟨_, protocol names r, _, fun _ _ => trivial, fun _ _ => steps_of_allows,
      call_follows_claim r⟩
  | find key =>
    exact ⟨_, reading names (.find key), _, fun _ _ => trivial, fun _ op h => h op rfl,
      (call_follows_find key).mono fun _ _ _ => trivial⟩
  | complete r =>
    exact ⟨_, reading names (.complete r), _, fun _ _ => trivial, fun _ op h => h op rfl,
      call_follows_complete r⟩
  | remove key =>
    exact ⟨_, reading names (.remove key), _, fun _ _ => trivial, fun _ op h => h op rfl,
      call_follows_remove key⟩

/-! ### Calls that take turns -/

variable {ι : Type} [DecidableEq ι] {k : Key}

/-- Some calls that take turns. -/
abbrev Calls (names : FieldNames) (req : ι → Ledger.Request) :=
  Execution (scene ι) fun i => call names (req i)

namespace Calls

variable {req : ι → Ledger.Request} (x : Calls names req)

/-- What the server holds under a key before the `n`-th event. -/
def held (k : Key) (n : Nat) : Option Entry := (x.state n).memory.entry? (x.state n).now k.text

/-- The value of a field of a key before the `n`-th event. -/
def field? (k : Key) (name : String) (n : Nat) : Option String :=
  (x.state n).memory.field? (x.state n).now k.text name

/-- The `n`-th event puts a value under a field. -/
def Puts (k : Key) (name value : String) (n : Nat) : Prop :=
  ∃ i op a, x.Says n i (.store op) a ∧ op.puts? k.text name a = some value

/-- The `n`-th event drops what was under the key. -/
def Drops (k : Key) (n : Nat) : Prop :=
  ∃ i op a, x.Says n i (.store op) a ∧ op.drops k.text = true

/-- The value that is under the field before the `n`-th event was put there in the `l`-th one. -/
structure Written (k : Key) (name value : String) (l n : Nat) : Prop where
  before : l < n
  put : x.Puts k name value l
  kept : ∀ t, l < t → t ≤ n → x.held k t ≠ none
  last : ∀ t, l < t → t < n → ¬ x.Drops k t ∧ ∀ v, ¬ x.Puts k name v t

/-- The calls are about one key of a server that is empty at first. -/
structure OneKey (k : Key) : Prop where
  key : ∀ i, (req i).key = k
  names : Distinct names
  empty : (x.state 0).memory = .empty

variable {x} {m n l t : Nat} {i : ι} {e e' : Entry} {name value : String}

theorem steps {op : Operation} {a : op.Answer} (h : x.Says n i (.store op) a) :
    Steps names (req i) op := by
  obtain ⟨τ, P, first, accepts, allows, follows⟩ := call_follows_steps names (req i)
  exact allows _ _ (Execution.Says.allowed h follows fun _ q a _ => accepts q a)

/-! ### What becomes of a field -/

theorem puts_iff {op : Operation} {a : op.Answer} (hs : x.Says n i (.store op) a) :
    x.Puts k name value n ↔ op.puts? k.text name a = some value := by
  refine ⟨?_, fun h => ⟨i, op, a, hs, h⟩⟩
  rintro ⟨j, op', a', hs', h⟩
  obtain ⟨-, hop, ha⟩ := hs.unique hs'
  cases hop
  cases ha
  exact h

theorem drops_iff {op : Operation} {a : op.Answer} (hs : x.Says n i (.store op) a) :
    x.Drops k n ↔ op.drops k.text = true := by
  refine ⟨?_, fun h => ⟨i, op, a, hs, h⟩⟩
  rintro ⟨j, op', a', hs', h⟩
  obtain ⟨-, hop, -⟩ := hs.unique hs'
  cases hop
  exact h

section

variable (h : x.OneKey k)

include h

theorem OneKey.distinct (hn : n ≤ x.length) : (x.state n).memory.Distinct := by
  refine memory_distinct ?_ hn
  rw [h.empty]
  exact List.nodup_nil

theorem OneKey.sound (hn : n ≤ x.length) : (x.state n).memory.writeFails = false := by
  refine memory_sound ?_ hn
  rw [h.empty]
  rfl

/-- The server answers whatever it is asked. -/
theorem OneKey.answered_ok {op : Operation} {a : op.Answer} (hs : x.Says n i (.store op) a) :
    ∃ v, a = .ok v := by
  obtain ⟨v, hv⟩ :=
    FieldStore.Memory.answer_ok (h.sound (Nat.le_of_lt hs.1)) (x.state n).now op
  exact ⟨v, (congrArg Prod.fst (carried_out hs).1).symm.trans hv⟩

theorem OneKey.key_eq {q : Ledger.Request} (hreq : req i = q) : q.key = k :=
  hreq ▸ h.key i

theorem OneKey.unlocked {op : Operation} {a : op.Answer} (hs : x.Says n i (.store op) a) :
    op.locks k.text = false := by
  have hk := h.key i
  have hsteps := steps hs
  generalize req i = q at hk hsteps
  cases hsteps with
  | locks r token ttl =>
    obtain rfl : r.key = k := hk
    exact decide_eq_false (Claims.lockName_ne r.key)
  | _ => rfl

omit h in
theorem held_said {op : Operation} {a : op.Answer} (hs : x.Says n i (.store op) a) :
    x.held k (n + 1) =
      FieldStore.Memory.entry? (FieldStore.Memory.answer (x.state n).now op (x.state n).memory).2
        (x.state n).now k.text := by
  obtain ⟨hm, hnow⟩ := carried_out hs
  unfold held
  rw [hm, hnow]

omit h in
theorem field?_of_held (he : x.held k n = some e) (name : String) :
    x.field? k name n = e.fields.get? name := by
  rw [field?, FieldStore.Memory.field?,
    show (x.state n).memory.entry? (x.state n).now k.text = some e from he]
  rfl

omit h in
/-- Unless the server is asked something, a key that is there stays as it was. -/
theorem held_silent (hd : (x.state n).memory.Distinct) (hn : n < x.length)
    (silent : ¬ ∃ i op a, x.Says n i (.store op) a) (he : x.held k (n + 1) = some e) :
    x.held k n = some e := by
  have hm := (memory_succ hn).resolve_right silent
  have hlater := FieldStore.Memory.entry?_later hd (now_succ hn) k.text
  unfold held at he ⊢
  rw [hm, hlater] at he
  exact (Option.filter_eq_some_iff.mp he).1

theorem OneKey.held_silent (hn : n < x.length)
    (silent : ¬ ∃ i op a, x.Says n i (.store op) a) (he : x.held k (n + 1) = some e) :
    x.held k n = some e :=
  Calls.held_silent (h.distinct (Nat.le_of_lt hn)) hn silent he

/-- **A field of a key that is there was put, or it was dropped, or it is what it was.** -/
theorem OneKey.get?_succ (hn : n < x.length) (he : x.held k (n + 1) = some e) (name : String) :
    (∃ v, x.Puts k name v n ∧ e.fields.get? name = some v) ∨
      (∀ v, ¬ x.Puts k name v n) ∧
        (x.Drops k n ∧ e.fields.get? name = none ∨
          ¬ x.Drops k n ∧ e.fields.get? name = x.field? k name n) := by
  by_cases hsaid : ∃ i op a, x.Says n i (.store op) a
  · obtain ⟨i, op, a, hs⟩ := hsaid
    have hn' := Nat.le_of_lt hn
    rw [held_said hs] at he
    have hget :=
      FieldStore.Memory.get?_answer (h.distinct hn') (h.sound hn') (h.unlocked hs) he name
    rw [(carried_out hs).1] at hget
    cases hput : op.puts? k.text name a with
    | some v =>
      rw [hput] at hget
      exact .inl ⟨v, ⟨i, op, a, hs, hput⟩, hget⟩
    | none =>
      rw [hput, Option.none_or] at hget
      refine .inr ⟨fun v hv => ?_, ?_⟩
      · rw [puts_iff hs, hput] at hv
        cases hv
      · rw [drops_iff hs]
        split at hget
        · rename_i hdrops
          exact .inl ⟨hdrops, hget⟩
        · rename_i hdrops
          exact .inr ⟨hdrops, hget⟩
  · have unput : ∀ v, ¬ x.Puts k name v n := by
      rintro v ⟨i, op, a, hs, -⟩
      exact hsaid ⟨i, op, a, hs⟩
    have undropped : ¬ x.Drops k n := by
      rintro ⟨i, op, a, hs, -⟩
      exact hsaid ⟨i, op, a, hs⟩
    refine .inr ⟨unput, .inr ⟨undropped, ?_⟩⟩
    rw [field?_of_held (h.held_silent hn hsaid he)]

omit h in
theorem Written.succ {v : String} (hw : x.Written k name v l n) (kept : x.held k (n + 1) ≠ none)
    (undropped : ¬ x.Drops k n) (unput : ∀ v, ¬ x.Puts k name v n) :
    x.Written k name v l (n + 1) where
  before := Nat.lt_succ_of_lt hw.before
  put := hw.put
  kept t hlt ht := by
    rcases Nat.lt_or_eq_of_le ht with ht | rfl
    · exact hw.kept t hlt (Nat.le_of_lt_succ ht)
    · exact kept
  last t hlt ht := by
    rcases Nat.lt_succ_iff_lt_or_eq.mp ht with ht | rfl
    · exact hw.last t hlt ht
    · exact ⟨undropped, unput⟩

/-- Whatever is under a field was put there by some event. -/
theorem OneKey.written (hn : n ≤ x.length) (he : x.held k n = some e) {v : String}
    (hv : e.fields.get? name = some v) : ∃ l, x.Written k name v l n := by
  induction n generalizing e with
  | zero =>
    rw [held, h.empty] at he
    cases he
  | succ n ih =>
    have hkept : x.held k (n + 1) ≠ none := by
      rw [he]
      nofun
    rcases h.get?_succ hn he name with ⟨v', hput, hget⟩ | ⟨unput, ⟨-, hget⟩ | ⟨undropped, hget⟩⟩
    · obtain rfl : v' = v := Option.some.inj (hget.symm.trans hv)
      refine ⟨n, Nat.lt_succ_self n, hput, fun t hlt ht => ?_, fun t hlt ht => ?_⟩
      · obtain rfl : t = n + 1 := by omega
        exact hkept
      · omega
    · rw [hget] at hv
      cases hv
    · rw [hget, field?, FieldStore.Memory.field?] at hv
      obtain ⟨e0, he0, hv⟩ := Option.bind_eq_some_iff.mp hv
      obtain ⟨l, hw⟩ := ih (by omega) he0 hv
      exact ⟨l, hw.succ hkept undropped unput⟩

end

end Calls

end AtMostOnce.Ledger.Fields
