/-
What a record on a server of fields can look like while calls take turns.

A claim puts the status first and the other fields in a write of its own, and a completion
merges its fields into whatever is there.  So a record lacks a status only where that write
of a claim came after what it had claimed was gone (`Stray`), and the fields of a completed
record are those of one completion, but for a payload hash that the completion did not
bring along or that a claim wrote after it (`record_forms`).
-/
import AtMostOnce.Proofs.Fields.Calls

namespace AtMostOnce.Ledger.Fields

open FieldStore

/-! ### Who puts a field -/

variable {ι : Type} [DecidableEq ι] {names : FieldNames} {k : Key}

namespace Calls

variable {req : ι → Ledger.Request} (x : Calls names req)

/-- In the `n`-th event a claim claims the status. -/
def Claims (n : Nat) (i : ι) (r : Record) : Prop :=
  req i = .claim r ∧
    x.Says n i (.store (.claim r.key.text names.status Status.inProgress.name)) (.ok true)

/-- In the `n`-th event a claim writes its fields to the status that it has claimed. -/
def Fills (n : Nat) (i : ι) (r : Record) : Prop :=
  req i = .claim r ∧
    ∃ ttl, x.Says n i (.store (.write r.key.text (claimFields names r) ttl)) (.ok ())

/-- In the `n`-th event a claim replaces an orphan. -/
def Replaces (n : Nat) (i : ι) (r : Record) : Prop :=
  req i = .claim r ∧
    ∃ ttl, x.Says n i (.store (.replace r.key.text (orphanFields names r) ttl)) (.ok ())

/-- In the `n`-th event a record is completed. -/
def Completes (n : Nat) (i : ι) (r : Record) : Prop :=
  req i = .complete r ∧
    ∃ ttl, x.Says n i (.store (.write r.key.text (completedFields names r) ttl)) (.ok ())

/-- Who puts a value under a field. -/
inductive Source (name value : String) (n : Nat) : Prop
  | claimed {i : ι} {r : Record} (h : x.Claims n i r) (status : name = names.status)
    (inProgress : value = Status.inProgress.name)
  | filled {i : ι} {r : Record} (h : x.Fills n i r)
    (field : Assoc.get? (Assoc.insertAll [] (claimFields names r)) name = some value)
  | replaced {i : ι} {r : Record} (h : x.Replaces n i r)
    (field : Assoc.get? (Assoc.insertAll [] (orphanFields names r)) name = some value)
  | completed {i : ι} {r : Record} (h : x.Completes n i r)
    (field : Assoc.get? (Assoc.insertAll [] (completedFields names r)) name = some value)

variable {x} {m n l t : Nat} {i : ι} {r : Record} {e : Entry} {name value : String}

theorem source (h : x.Puts k name value n) : x.Source name value n := by
  obtain ⟨i, op, a, hs, hput⟩ := h
  have hsteps := steps hs
  generalize hq : req i = q at hsteps
  cases hsteps with
  | claims r =>
    cases a with
    | error e => cases hput
    | ok granted =>
      cases granted with
      | false => cases hput
      | true =>
        obtain ⟨⟨-, rfl⟩, ⟨⟩⟩ := Option.ite_none_right_eq_some.mp hput
        exact .claimed ⟨hq, hs⟩ rfl rfl
  | fills r ttl =>
    cases a with
    | error e => cases hput
    | ok _ => exact .filled ⟨hq, ttl, hs⟩ (Option.ite_none_right_eq_some.mp hput).2
  | replaces r ttl =>
    cases a with
    | error e => cases hput
    | ok _ => exact .replaced ⟨hq, ttl, hs⟩ (Option.ite_none_right_eq_some.mp hput).2
  | completes r ttl =>
    cases a with
    | error e => cases hput
    | ok _ => exact .completed ⟨hq, ttl, hs⟩ (Option.ite_none_right_eq_some.mp hput).2
  | looks r => cases hput
  | locks r token ttl => cases hput
  | finds key => cases hput
  | removes key => cases hput

section

variable (h : x.OneKey k)

include h

theorem Claims.puts (hc : x.Claims n i r) :
    x.Puts k names.status Status.inProgress.name n := by
  obtain rfl : r.key = k := h.key_eq hc.1
  exact (puts_iff hc.2).mpr (if_pos ⟨rfl, rfl⟩)

theorem Replaces.puts (hr : x.Replaces n i r) :
    x.Puts k names.status Status.inProgress.name n := by
  obtain rfl : r.key = k := h.key_eq hr.1
  obtain ⟨-, ttl, hs⟩ := hr
  exact (puts_iff hs).mpr ((if_pos rfl).trans (status_orphanFields h.names r))

/-- A completion puts its own fields and no other ones. -/
theorem Completes.puts_iff (hc : x.Completes n i r) : x.Puts k name value n ↔
    Assoc.get? (Assoc.insertAll [] (completedFields names r)) name = some value := by
  obtain rfl : r.key = k := h.key_eq hc.1
  obtain ⟨-, ttl, hs⟩ := hc
  rw [Calls.puts_iff hs, Operation.puts?, if_pos rfl]

theorem Completes.puts (hc : x.Completes n i r) :
    x.Puts k names.status Status.completed.name n :=
  (hc.puts_iff h).mpr (fields_completed h.names r []).1

/-- A status is put by a claim or by a completion. -/
theorem source_status (hp : x.Puts k names.status value n) :
    value = Status.inProgress.name ∨
      value = Status.completed.name ∧ ∃ i r, x.Completes n i r := by
  cases source hp with
  | claimed _ _ inProgress => exact .inl inProgress
  | filled hf field =>
    rw [status_insertAll h.names] at field
    cases field
  | replaced hr field =>
    rw [status_orphanFields h.names] at field
    exact .inl (Option.some.inj field).symm
  | completed hc field =>
    rw [(fields_completed h.names _ []).1] at field
    exact .inr ⟨(Option.some.inj field).symm, _, _, hc⟩

/-- Data are put by completions only. -/
theorem source_data (hp : x.Puts k names.data value n) : ∃ i r, x.Completes n i r := by
  cases source hp with
  | claimed _ status => exact absurd status h.names.data_others.1
  | filled hf field =>
    rw [data_insertAll h.names] at field
    cases field
  | replaced hr field =>
    rw [data_orphanFields h.names] at field
    cases field
  | completed hc _ => exact ⟨_, _, hc⟩

/-- What is dropped is replaced, with a status, or gone. -/
theorem dropped_cases (hd : x.Drops k n) :
    x.Puts k names.status Status.inProgress.name n ∨ x.held k (n + 1) = none := by
  obtain ⟨i, op, a, hs, hdrops⟩ := hd
  have hk := h.key i
  have hsteps := steps hs
  generalize hq : req i = q at hk hsteps
  cases hsteps with
  | replaces r ttl =>
    obtain ⟨_, rfl⟩ := h.answered_ok hs
    exact .inl (Replaces.puts h ⟨hq, ttl, hs⟩)
  | removes key =>
    obtain rfl : key = k := hk
    right
    rw [held_said hs]
    exact (FieldStore.Memory.entry?_of_erase (h.distinct (Nat.le_of_lt hs.1)) none rfl _).trans
      (if_pos rfl)
  | _ => cases hdrops

omit h in
/-- A claim writes its other fields after it was granted the status. -/
theorem Fills.claimed (hf : x.Fills n i r) : ∃ l < n, x.Claims l i r := by
  obtain ⟨hreq, ttl, hs⟩ := hf
  have follows : (call names (req i)).Follows (protocol names r) (fun _ _ => True) .starting :=
    hreq ▸ call_follows_claim r
  have allowed : ∀ {m q a}, x.Says m i q a →
      allows names r (x.phase (protocol names r) .starting i m) q :=
    fun hs => Execution.Says.allowed hs follows fun _ _ _ _ => trivial
  have hfirst : ¬ SavePhase.starting = .claimed := nofun
  obtain ⟨l, hl, q, a, hsaid, hnot, hp⟩ := Execution.phase_arises
    (p := fun s => s = SavePhase.claimed)
    hfirst (Nat.le_of_lt hs.1) (allowed hs).1
  have hmove := SavePhase.after_move (x.phase (protocol names r) .starting i l) q a
  have hall := allowed hsaid
  rw [show (x.phase (protocol names r) .starting i l).after q a = .claimed from hp] at hmove
  generalize x.phase (protocol names r) .starting i l = s at hmove hnot hall
  cases hmove with
  | stays => exact absurd rfl hnot
  | claims key field value =>
    obtain ⟨-, rfl, rfl, rfl⟩ := hall
    exact ⟨l, hl, hreq, hsaid⟩

end

/-! ### Records without a status -/

variable (x) in
/-- The record has no status: a claim wrote its other fields when what it had claimed was gone, and
no status has been put beside them since. -/
def Stray (k : Key) (n : Nat) : Prop :=
  ∃ l₀ l i r, l₀ < l ∧ l < n ∧ x.Claims l₀ i r ∧ x.Fills l i r ∧ x.held k l = none ∧
    ∀ t, l < t → t ≤ n → x.held k t ≠ none ∧ x.field? k names.status t = none

section

variable (h : x.OneKey k)

include h

/-- What is there where nothing was, and has no status, a claim has just written. -/
theorem fills_of_appears (hn : n < x.length) (free : x.held k n = none)
    (he : x.held k (n + 1) = some e) (unput : ∀ v, ¬ x.Puts k names.status v n) :
    ∃ i r, x.Fills n i r := by
  by_cases hsaid : ∃ i op a, x.Says n i (.store op) a
  · obtain ⟨i, op, a, hs⟩ := hsaid
    have hd := h.distinct (Nat.le_of_lt hn)
    have hans := congrArg Prod.fst (carried_out hs).1
    have same : x.held k (n + 1) = x.held k n → ∃ i r, x.Fills n i r := by
      intro hsame
      rw [hsame, free] at he
      cases he
    have hafter := held_said (k := k) hs
    have hk := h.key i
    have hsteps := steps hs
    generalize hq : req i = q at hk hsteps
    cases hsteps with
    | claims r =>
      obtain rfl : r.key = k := hk
      obtain ⟨granted, rfl⟩ := h.answered_ok hs
      cases granted with
      | true => exact absurd (Claims.puts h ⟨hq, hs⟩) (unput _)
      | false => exact same (hafter.trans (FieldStore.Memory.claim_refused hd hans).2)
    | fills r ttl =>
      obtain ⟨_, rfl⟩ := h.answered_ok hs
      exact ⟨i, r, hq, ttl, hs⟩
    | looks r => exact same (hafter.trans (FieldStore.Memory.entry?_read hd _ _ _))
    | locks r token ttl =>
      obtain rfl : r.key = k := hk
      exact same (hafter.trans
        (FieldStore.Memory.entry?_answer_of_ne hd (Claims.lockName_ne r.key)))
    | replaces r ttl =>
      obtain ⟨_, rfl⟩ := h.answered_ok hs
      exact absurd (Replaces.puts h ⟨hq, ttl, hs⟩) (unput _)
    | completes r ttl =>
      obtain ⟨_, rfl⟩ := h.answered_ok hs
      exact absurd (Completes.puts h ⟨hq, ttl, hs⟩) (unput _)
    | finds key => exact same (hafter.trans (FieldStore.Memory.entry?_read hd _ _ _))
    | removes key =>
      rw [(dropped_cases h ⟨i, _, a, hs, decide_eq_true (congrArg Key.text hk)⟩).resolve_left
        (unput _)] at he
      cases he
  · rw [h.held_silent hn hsaid he] at free
    cases free

/-- A record without a status is a stray one. -/
theorem stray_of_statusless (hn : n ≤ x.length) (he : x.held k n = some e)
    (hstatus : e.fields.get? names.status = none) : x.Stray k n := by
  induction n generalizing e with
  | zero =>
    rw [held, h.empty] at he
    cases he
  | succ n ih =>
    have now : x.held k (n + 1) ≠ none ∧ x.field? k names.status (n + 1) = none := by
      rw [field?_of_held he, he]
      exact ⟨Option.some_ne_none e, hstatus⟩
    rcases h.get?_succ hn he names.status with
      ⟨v, -, hget⟩ | ⟨unput, ⟨dropped, -⟩ | ⟨-, hget⟩⟩
    · rw [hget] at hstatus
      cases hstatus
    · exact absurd ((dropped_cases h dropped).resolve_left (unput _)) now.1
    · cases hbefore : x.held k n with
      | none =>
        obtain ⟨i, r, hfills⟩ := fills_of_appears h hn hbefore he unput
        obtain ⟨l₀, hl, hclaims⟩ := hfills.claimed
        refine ⟨l₀, n, i, r, hl, Nat.lt_succ_self n, hclaims, hfills, hbefore, fun t hlt ht => ?_⟩
        obtain rfl : t = n + 1 := by omega
        exact now
      | some e0 =>
        rw [hget, field?_of_held hbefore] at hstatus
        obtain ⟨l₀, l, i, r, hl, hln, hclaims, hfills, hgone, hsince⟩ :=
          ih (by omega) hbefore hstatus
        refine ⟨l₀, l, i, r, hl, by omega, hclaims, hfills, hgone, fun t hlt ht => ?_⟩
        rcases Nat.lt_or_eq_of_le ht with ht | rfl
        · exact hsince t hlt (Nat.le_of_lt_succ ht)
        · exact now

/-- A record has a status that can be read, or it is a stray one. -/
theorem readable_or_stray (hn : n ≤ x.length) (he : x.held k n = some e) :
    (∃ status, Status.parse ((e.fields.get? names.status).getD "") = .ok status) ∨
      x.Stray k n := by
  cases hstatus : e.fields.get? names.status with
  | none => exact .inr (stray_of_statusless h hn he hstatus)
  | some value =>
    obtain ⟨l, hw⟩ := h.written hn he hstatus
    rcases source_status h hw.put with rfl | ⟨rfl, -⟩
    · exact .inl ⟨.inProgress, Status.parse_name .inProgress⟩
    · exact .inl ⟨.completed, Status.parse_name .completed⟩

omit h in
/-- What was read was read in some event. -/
theorem read_origin {q : Ledger.Request} {a : Except Error (Fields × Int)} (hn : n ≤ x.length)
    (hphase : x.phase (reading names q) none i n = some a) :
    ∃ l < n, ∃ key, x.Says l i (.store (.read key)) a := by
  have hfirst : ¬ (none : Option (Except Error (Fields × Int))) = some a := nofun
  obtain ⟨l, hl, q', a', hs, hnot, hp⟩ := Execution.phase_arises (p := fun read => read = some a)
    hfirst hn hphase
  refine ⟨l, hl, ?_⟩
  cases q' with
  | now => exact absurd hp hnot
  | token => exact absurd hp hnot
  | store op =>
    cases op with
    | read key =>
      obtain rfl : a' = a := Option.some.inj hp
      exact ⟨key, hs⟩
    | _ => exact absurd hp hnot

/-- A record is found unreadable only where a stray one was read. -/
theorem find_unreadable {s : String} (hreq : req i = .find k)
    (hend : x.Ends i ⟨.find k, .error (.invalidStatus s)⟩) :
    ∃ l < x.length, (∃ shown, x.Says l i (.store (.read k.text)) (.ok shown)) ∧ x.Stray k l := by
  have follows : (call names (req i)).Follows (reading names (.find k))
      (fun read reply => ∀ s, reply = ⟨.find k, .error (.invalidStatus s)⟩ →
        Unreadable names read) none := by
    rw [hreq]
    exact call_follows_find k
  obtain ⟨n, hn, hdone⟩ := hend
  have hf := Execution.follows_phase (x := x) (i := i) follows (fun _ _ _ _ => trivial) n hn
  rw [hdone] at hf
  have answered : ∀ {l key a}, x.Says l i (.store (.read key)) a → key = k.text ∧
      a = .ok (((x.held k l).map Entry.fields).getD [],
        (x.state l).memory.ttl (x.state l).now k.text) := by
    intro l key a hs
    have hsteps := steps hs
    rw [hreq] at hsteps
    cases hsteps
    exact ⟨rfl, (congrArg Prod.fst (carried_out hs).1).symm⟩
  rcases hf s rfl with ⟨e, hread⟩ | ⟨fields, ttl, hread, hne, err, hparse⟩
  · obtain ⟨l, -, key, hs⟩ := read_origin hn hread
    cases (answered hs).2
  · obtain ⟨l, hl, key, hs⟩ := read_origin hn hread
    obtain ⟨rfl, hshown⟩ := answered hs
    refine ⟨l, by omega, ⟨_, hs⟩, ?_⟩
    have hfields := congrArg Prod.fst (Except.ok.inj hshown)
    cases he : x.held k l with
    | none =>
      rw [he] at hfields
      exact absurd hfields hne
    | some e =>
      rw [he] at hfields
      obtain rfl : fields = e.fields := hfields
      refine (readable_or_stray h (by omega) he).resolve_left ?_
      rintro ⟨status, hstatus⟩
      rw [hparse] at hstatus
      cases hstatus

/-! ### Completed records -/

/-- The data of a completed record are those of the completion that put the status. -/
theorem data_written {c : Record} (hstatus : x.Written k names.status value l n)
    (hc : x.Completes l i c) : x.Written k names.data (c.data.getD "") l n where
  before := hstatus.before
  put := (hc.puts_iff h).mpr (fields_completed h.names c []).2.1
  kept := hstatus.kept
  last t hlt ht := by
    refine ⟨(hstatus.last t hlt ht).1, fun v hv => ?_⟩
    obtain ⟨j, c', hc'⟩ := source_data h hv
    exact (hstatus.last t hlt ht).2 _ (hc'.puts h)

/-- While the status of a completion is there, only a claim that was granted its status before
the completion puts a payload hash. -/
theorem late_hash {c : Record} {v : String} (hstatus : x.Written k names.status v l n)
    (hc : x.Completes l i c) (hlt : l < t) (htn : t < n)
    (hp : x.Puts k names.payloadHash value t) :
    ∃ l₀ < l, ∃ j r, x.Claims l₀ j r ∧ x.Fills t j r := by
  have undisturbed : ∀ t, l < t → t < n → ∀ v, ¬ x.Puts k names.status v t :=
    fun t hlt ht => (hstatus.last t hlt ht).2
  cases source hp with
  | claimed _ status => exact absurd status (Ne.symm h.names.status_payloadHash)
  | @filled j r hf _ =>
    obtain ⟨l₀, hl₀, hclaims⟩ := hf.claimed
    refine ⟨l₀, ?_, j, r, hclaims, hf⟩
    rcases Nat.lt_trichotomy l₀ l with hlt₀ | rfl | hgt
    · exact hlt₀
    · obtain ⟨-, ttl, hs⟩ := hc
      cases (hclaims.2.unique hs).2.1
    · exact absurd (hclaims.puts h) (undisturbed l₀ hgt (by omega) _)
  | replaced hr _ => exact absurd (hr.puts h) (undisturbed t hlt htn _)
  | completed hc' _ => exact absurd (hc'.puts h) (undisturbed t hlt htn _)

/-- The fields of a completed record are those of one completion, but for a payload hash that was
there before and that the completion did not bring along, or that a claim wrote after it. -/
theorem completed_by_one (hn : n ≤ x.length) (he : x.held k n = some e)
    (hstatus : e.fields.get? names.status = some Status.completed.name) :
    ∃ l i c, x.Completes l i c ∧ x.Written k names.status Status.completed.name l n ∧
      x.Written k names.data (c.data.getD "") l n ∧
      ∀ hash, e.fields.get? names.payloadHash = some hash →
        ∃ l', x.Written k names.payloadHash hash l' n ∧
          (l' = l ∧ c.payloadHash = some hash ∨ l' < l ∧ c.payloadHash = none ∨
            l < l' ∧ ∃ l₀ < l, ∃ j r, x.Claims l₀ j r ∧ x.Fills l' j r) := by
  obtain ⟨l, hw⟩ := h.written hn he hstatus
  obtain ⟨i, c, hc⟩ : ∃ i c, x.Completes l i c := by
    rcases source_status h hw.put with habs | ⟨-, hc⟩
    · exact absurd habs (by decide)
    · exact hc
  refine ⟨l, i, c, hc, hw, data_written h hw hc, fun hash hhash => ?_⟩
  obtain ⟨l', hw'⟩ := h.written hn he hhash
  refine ⟨l', hw', ?_⟩
  rcases Nat.lt_trichotomy l' l with hlt | rfl | hgt
  · refine .inr (.inl ⟨hlt, ?_⟩)
    by_contra hsome
    obtain ⟨v, hv⟩ := Option.ne_none_iff_exists'.mp hsome
    exact (hw'.last l hlt hw.before).2 v
      ((hc.puts_iff h).mpr ((payloadHash_completedFields h.names c).trans hv))
  · refine .inl ⟨rfl, ?_⟩
    rw [← payloadHash_completedFields h.names c]
    exact (hc.puts_iff h).mp hw'.put
  · exact .inr (.inr ⟨hgt, late_hash h hw hc hgt hw'.before hw'.put⟩)

end

/-- **A record has a status that can be read unless it is a stray one, and is found to have none
only then.  A completed record has the status and the data of one completion, and its payload hash
too unless the completion brought none along or a claim that was granted before it wrote one after
it.** -/
theorem record_forms (h : x.OneKey k) :
    (∀ n ≤ x.length, ∀ e, x.held k n = some e →
      ((∃ status, Status.parse ((e.fields.get? names.status).getD "") = .ok status) ∨
        x.Stray k n) ∧
      (e.fields.get? names.status = some Status.completed.name →
        ∃ l i c, x.Completes l i c ∧ x.Written k names.status Status.completed.name l n ∧
          x.Written k names.data (c.data.getD "") l n ∧
          ∀ hash, e.fields.get? names.payloadHash = some hash →
            ∃ l', x.Written k names.payloadHash hash l' n ∧
              (l' = l ∧ c.payloadHash = some hash ∨ l' < l ∧ c.payloadHash = none ∨
                l < l' ∧ ∃ l₀ < l, ∃ j r, x.Claims l₀ j r ∧ x.Fills l' j r))) ∧
    ∀ i s, req i = .find k → x.Ends i ⟨.find k, .error (.invalidStatus s)⟩ →
      ∃ l < x.length, (∃ shown, x.Says l i (.store (.read k.text)) (.ok shown)) ∧ x.Stray k l :=
  ⟨fun _ hn _ he => ⟨readable_or_stray h hn he, completed_by_one h hn he⟩,
    fun _ _ hreq hend => find_unreadable h hreq hend⟩

/-! A claim is removed between its two steps, its record is found to have no status, and the next
claim takes it over; the completion comes between the two steps of that one. -/

/-- The calls about the order. -/
inductive Caller where
  | first
  | second
  | finisher
  | remover
  | finder
  deriving DecidableEq

def Caller.request : Caller → Ledger.Request
  | first => .claim ⟨order, .inProgress, some 3600, some 100000, none, some "h1"⟩
  | second => .claim ⟨order, .inProgress, some 3600, some 100000, none, some "h2"⟩
  | finisher => .complete ⟨order, .completed, some 3600, none, some "result", none⟩
  | remover => .remove order
  | finder => .find order

/-- The server that holds nothing, at its first millisecond. -/
def vacant : Site := ⟨0, .empty⟩

/-- The removal and the completion come between the two steps of a claim each. -/
def crossing : Calls .initial Caller.request :=
  (player Caller).play vacant _
    (turns .first 1 ++ turns .remover 1 ++ turns .first 2 ++ turns .finder 1 ++ turns .second 1 ++
      turns .finisher 2 ++ turns .second 2)

theorem crossing_oneKey : crossing.OneKey order where
  key i := by cases i <;> rfl
  names := initial_distinct
  empty := rfl

/-- Behind the removal the claim leaves a record without a status. -/
theorem crossing_statusless : ∃ e, crossing.held order 4 = some e ∧
    ¬ ∃ status, Status.parse ((e.fields.get? FieldNames.initial.status).getD "") = .ok status := by
  refine ⟨_, rfl, ?_⟩
  rintro ⟨status, hstatus⟩
  cases hstatus

theorem crossing_found : crossing.Ends .finder ⟨.find order, .error (.invalidStatus "")⟩ :=
  ⟨5, by decide, rfl⟩

theorem crossing_completed {n : Nat} (h : n = 8 ∨ n = 10) : ∃ e hash,
    crossing.held order n = some e ∧
      e.fields.get? FieldNames.initial.status = some Status.completed.name ∧
      e.fields.get? FieldNames.initial.payloadHash = some hash := by
  rcases h with rfl | rfl
  · exact ⟨_, "h1", rfl, rfl, rfl⟩
  · exact ⟨_, "h2", rfl, rfl, rfl⟩

/-- The completion brings no payload hash along, so it has written none. -/
theorem crossing_hash_unwritten {n l : Nat} {i : Caller} {c : Record} {hash : String}
    (hc : crossing.Completes l i c) :
    ¬ crossing.Written order FieldNames.initial.payloadHash hash l n := by
  intro hw
  have hput := (hc.puts_iff crossing_oneKey).mp hw.put
  rw [payloadHash_completedFields initial_distinct] at hput
  cases i with
  | finisher =>
    cases hc.1
    cases hput
  | _ => cases hc.1

/-- The record without a status is a stray one, it is what the reader has found, and the completed
record has its data from the completion, whoever wrote its payload hash. -/
theorem crossing_forms :
    crossing.OneKey order ∧ crossing.Stray order 4 ∧
      (∃ l < crossing.length,
        (∃ shown, crossing.Says l .finder (.store (.read order.text)) (.ok shown)) ∧
          crossing.Stray order l) ∧
      ∃ l i c, crossing.Completes l i c ∧
        crossing.Written order FieldNames.initial.data (c.data.getD "") l 10 ∧
        ∃ hash l', crossing.Written order FieldNames.initial.payloadHash hash l' 10 ∧ l' ≠ l := by
  obtain ⟨forms, unreadable⟩ := record_forms crossing_oneKey
  refine ⟨crossing_oneKey, ?_, unreadable .finder _ rfl crossing_found, ?_⟩
  · obtain ⟨e, he, hstatus⟩ := crossing_statusless
    exact ((forms 4 (by decide) e he).1).resolve_left hstatus
  · obtain ⟨e, hash, he, hstatus, hhash⟩ := crossing_completed (.inr rfl)
    obtain ⟨l, i, c, hc, -, hdata, hashes⟩ := (forms 10 (by decide) e he).2 hstatus
    obtain ⟨l', hw, -⟩ := hashes hash hhash
    refine ⟨l, i, c, hc, hdata, hash, l', hw, ?_⟩
    rintro rfl
    exact crossing_hash_unwritten hc hw

/-- A record may be there without a status and be found to have none, and the payload hash of a
completed one may come from a claim, before the completion as after it. -/
theorem crossing_mixes_fields :
    crossing.OneKey order ∧
    (∃ e, crossing.held order 4 = some e ∧
      ¬ ∃ status, Status.parse ((e.fields.get? FieldNames.initial.status).getD "") = .ok status) ∧
    crossing.Ends .finder ⟨.find order, .error (.invalidStatus "")⟩ ∧
    ∀ n, n = 8 ∨ n = 10 → ∃ e, crossing.held order n = some e ∧
      e.fields.get? FieldNames.initial.status = some Status.completed.name ∧
      ¬ ∃ l i c, crossing.Completes l i c ∧
        crossing.Written order FieldNames.initial.data (c.data.getD "") l n ∧
        ∀ hash, e.fields.get? FieldNames.initial.payloadHash = some hash →
          crossing.Written order FieldNames.initial.payloadHash hash l n := by
  refine ⟨crossing_oneKey, crossing_statusless, crossing_found, fun n hn => ?_⟩
  obtain ⟨e, hash, he, hstatus, hhash⟩ := crossing_completed hn
  refine ⟨e, he, hstatus, ?_⟩
  rintro ⟨l, i, c, hc, -, hashes⟩
  exact crossing_hash_unwritten hc (hashes hash hhash)

end Calls

end AtMostOnce.Ledger.Fields
