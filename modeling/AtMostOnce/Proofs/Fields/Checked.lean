/-
Requests that check their figures.

The server and the ledger are written once, over any arithmetic.  Step by step a figure that is
checked comes to what it comes to without checks, or ends everything (`Gives`); so an operation is
answered alike (`gives_answer`), and a request asks the same questions and ends with the same
result (`checked_agrees`), up to the first overflow.  What is said elsewhere of requests that do
not check holds of those that do then.

The walk over a request is done once, for two readings of it.  A strict one takes what keeps the
figures in range for granted, and says that there is no overflow at all (`Agrees.follows`); the
other one takes nothing for granted, and says what has come to its end without an overflow
(`Agrees.returned`).

A write under a key that holds something overflows if the end of its time to live cannot be told
(`write_overflows`).
-/
import AtMostOnce.Proofs.Fields.Lifetime
import AtMostOnce.Proofs.Range

namespace AtMostOnce

/-! ### Figures -/

section

variable {β γ : Type} {strict : Prop} {x : Except Overflow β} {b c : β} {n : Int}

/-- The computation ends with such a value; if it is not strict, it may overflow instead. -/
def Gives (strict : Prop) (x : Except Overflow β) (b : β) : Prop :=
  x = .ok b ∨ ¬ strict ∧ ∃ overflow, x = .error overflow

theorem Gives.bind {f : β → Except Overflow γ} {d : γ} (h : Gives strict x b)
    (hf : Gives strict (f b) d) : Gives strict (x >>= f) d := by
  rcases h with rfl | ⟨lax, overflow, rfl⟩
  · exact hf
  · exact .inr ⟨lax, overflow, rfl⟩

theorem Gives.eq (h : Gives strict x b) (hs : strict) : x = .ok b :=
  h.resolve_right fun lax => lax.1 hs

theorem Gives.of_ok (h : Gives strict x b) (hc : x = .ok c) : b = c := by
  rcases h with hb | ⟨-, overflow, ho⟩
  · exact Except.ok.inj (hb.symm.trans hc)
  · cases ho.symm.trans hc

theorem figure_overflows (h : ¬ Word.InRange n) :
    (figure n : Except Overflow Int) = .error ⟨n⟩ := if_neg h

theorem gives_figure (h : strict → Word.InRange n) :
    Gives strict (figure n : Except Overflow Int) (Word.wrap n) := by
  by_cases hn : Word.InRange n
  · rw [Word.wrap_eq hn]
    exact .inl (if_pos hn)
  · exact .inr ⟨fun hs => hn (h hs), ⟨n⟩, figure_overflows hn⟩

end

namespace FieldStore

/-- The time to live that an operation passes to the server. -/
def Operation.lifetime? : Operation → Option Int
  | .write _ _ ttl | .replace _ _ ttl => ttl
  | .lock _ _ ttl => some ttl
  | .claim _ _ _ | .read _ | .delete _ => none

namespace Memory

variable {m : Memory} {now t ttl : Int} {key : String} {op : Operation} {old : Option Entry}
  {fields : Fields} {e : Entry} {strict : Prop}

theorem gives_ahead (fits : strict → Fits now ttl) :
    Gives strict (aheadM now ttl : Except Overflow Millis) (ahead now ttl) := by
  refine (gives_figure fun hs => (fits hs).1).bind (gives_figure fun hs => ?_)
  rw [Word.wrap_eq (fits hs).1]
  exact (fits hs).2

theorem aheadM_overflows (h : ¬ Fits now ttl) :
    ∃ overflow, (aheadM now ttl : Except Overflow Millis) = .error overflow := by
  unfold aheadM
  by_cases hproduct : Word.InRange (ttl * 1000)
  · rw [show (figure (ttl * 1000) : Except Overflow Int) = .ok _ from if_pos hproduct]
    exact ⟨_, figure_overflows fun hsum => h ⟨hproduct, hsum⟩⟩
  · rw [figure_overflows hproduct]
    exact ⟨_, rfl⟩

theorem gives_secondsUntil (h : strict → Word.InRange (t - now) ∧ Word.InRange (t - now + 500)) :
    Gives strict (secondsUntilM now t : Except Overflow Int) (secondsUntil now t) := by
  refine (gives_figure fun hs => (h hs).1).bind ((gives_figure fun hs => ?_).bind (.inl rfl))
  rw [Word.wrap_eq (h hs).1]
  exact (h hs).2

/-- No figure of the operation leaves the range: the end of its time to live, which is a second at
least, can be told, and so can the time to live that it shows. -/
structure Accurate (now : Int) (m : Memory) (op : Operation) : Prop where
  lifetime : ∀ ttl, op.lifetime? = some ttl → 1 ≤ ttl ∧ Fits now ttl
  shown : ∀ key e (t : Int), op = .read key → m.entry? now key = some e → e.dropAt = some t →
    Word.InRange (t - now) ∧ Word.InRange (t - now + 500)

theorem gives_ttl (shown : strict → ∀ e (t : Int), m.entry? now key = some e → e.dropAt = some t →
    Word.InRange (t - now) ∧ Word.InRange (t - now + 500)) :
    Gives strict (m.ttlM now key : Except Overflow Int) (m.ttl now key) := by
  rw [ttlM, ttl_eq]
  split
  · exact .inl rfl
  · exact .inl rfl
  · rename_i t he
    exact gives_secondsUntil fun hs => shown hs _ t he rfl

theorem gives_written (ttl : Option Int)
    (fits : strict → ∀ seconds, ttl = some seconds → Fits now seconds) :
    Gives strict (writtenM now old fields ttl : Except Overflow (Option Entry))
      (written now old fields ttl) := by
  unfold writtenM
  cases ttl with
  | none =>
    rw [written_none]
    exact .inl rfl
  | some seconds =>
    rw [written_some]
    cases merged old fields with
    | none => exact .inl rfl
    | some e => exact (gives_ahead fun hs => fits hs seconds rfl).bind (.inl rfl)

/-- **An operation is answered as if its figures were not checked, up to the first that leaves the
range.** -/
theorem gives_answer (now : Millis) (op : Operation) (m : Memory)
    (accurate : strict → m.Accurate now op) :
    Gives strict (answerM now op m : Except Overflow (op.Answer × Memory)) (answer now op m) := by
  have fits : strict → ∀ ttl, op.lifetime? = some ttl → Fits now ttl :=
    fun hs ttl h => ((accurate hs).lifetime ttl h).2
  cases op with
  | claim key field value =>
    rw [answerM, answer_claim]
    split <;> exact .inl rfl
  | write key fields ttl =>
    rw [answerM, answer_write]
    split
    · exact .inl rfl
    · exact (gives_written ttl fits).bind (.inl rfl)
  | read key =>
    exact (gives_ttl fun hs e t => (accurate hs).shown key e t rfl).bind (.inl rfl)
  | lock key token ttl =>
    rw [answerM, answer_lock]
    dsimp only
    split
    · exact .inl rfl
    · exact (gives_ahead fun hs => fits hs ttl rfl).bind (.inl rfl)
  | replace key fields ttl => exact (gives_written ttl fits).bind (.inl rfl)
  | delete key => exact .inl rfl

theorem merged_some (e : Entry) (fields : Fields) : ∃ e', merged (some e) fields = some e' := by
  unfold merged
  split <;> exact ⟨_, rfl⟩

/-- A write to an entry overflows if its end cannot be told. -/
theorem write_overflows (fields : Fields) (held : m.entry? now key = some e)
    (sound : m.writeFails = false) (unfit : ¬ Fits now ttl) :
    ∃ overflow, (answerM now (.write key fields (some ttl)) m :
      Except Overflow (Except Error Unit × Memory)) = .error overflow := by
  obtain ⟨e', hmerged⟩ := merged_some e fields
  obtain ⟨overflow, hahead⟩ := aheadM_overflows unfit
  have hwritten : (writtenM now (some e) fields (some ttl) : Except Overflow (Option Entry)) =
      .error overflow := by
    unfold writtenM
    rw [hmerged]
    dsimp only
    rw [hahead]
    rfl
  refine ⟨overflow, ?_⟩
  rw [answerM, if_neg (by rw [sound]; nofun)]
  dsimp only
  rw [show (m.live now).get? key = some e from held, hwritten]
  rfl

end Memory

end FieldStore

/-! ### Dialogues -/

namespace Dialogue

section

variable {Q : Type} {A : Q → Type} {τ β γ : Type} {strict : Prop} {told : (q : Q) → A q → Prop}

/-- As long as such answers are given, one dialogue asks what the other one asks and ends as it
ends; if this is not strict, it may overflow instead. -/
inductive Agrees (strict : Prop) (told : (q : Q) → A q → Prop) :
    Dialogue Q A (Except Overflow β) → Dialogue Q A β → Prop
  | done (b : β) : Agrees strict told (.done (.ok b)) (.done b)
  | overflows (lax : ¬ strict) (overflow : Overflow) (d : Dialogue Q A β) :
    Agrees strict told (.done (.error overflow)) d
  | ask (q : Q) {next? : A q → Dialogue Q A (Except Overflow β)} {next : A q → Dialogue Q A β}
    (agrees : ∀ a, told q a → Agrees strict told (next? a) (next a)) :
    Agrees strict told (.ask q next?) (.ask q next)

theorem Agrees.bind {d? : ExceptT Overflow (Dialogue Q A) β} {d : Dialogue Q A β}
    {f? : β → ExceptT Overflow (Dialogue Q A) γ} {f : β → Dialogue Q A γ}
    (h : Agrees strict told d?.run d) (hf : ∀ b, Agrees strict told (f? b).run (f b)) :
    Agrees strict told (d? >>= f?).run (d >>= f) := by
  obtain ⟨d', rfl⟩ : ∃ d', ExceptT.mk d' = d? := ⟨d?.run, rfl⟩
  change Agrees strict told d' d at h
  induction h with
  | done b => exact hf b
  | overflows lax overflow d => exact .overflows lax overflow (d >>= f)
  | ask q _ ih => exact .ask q ih

theorem agrees_figure {n : Int} (h : strict → Word.InRange n) :
    Agrees strict told (figure n : ExceptT Overflow (Dialogue Q A) Int).run
      (.done (Word.wrap n)) := by
  by_cases hn : Word.InRange n
  · rw [Word.wrap_eq hn,
      show (figure n : ExceptT Overflow (Dialogue Q A) Int) = pure n from if_pos hn]
    exact .done n
  · rw [show (figure n : ExceptT Overflow (Dialogue Q A) Int) = throw ⟨n⟩ from if_neg hn]
    exact .overflows (fun hs => hn (h hs)) ⟨n⟩ _

/-- What a dialogue follows is followed by one that strictly agrees with it, and that does not
overflow then. -/
theorem Agrees.follows {P : Protocol Q A τ} {ends : τ → β → Prop} {s : τ}
    {d? : Dialogue Q A (Except Overflow β)} {d : Dialogue Q A β} (agrees : Agrees strict told d? d)
    (hs : strict) (h : d.Follows P ends s) :
    d?.Follows { P with accepts := fun q a => told q a ∧ P.accepts q a }
      (fun s x => ∃ b, x = .ok b ∧ ends s b) s := by
  induction agrees generalizing s with
  | done b => exact ⟨b, rfl, h⟩
  | overflows lax _ _ => exact absurd hs lax
  | ask q _ ih => exact ⟨h.1, fun a ha => ih a ha.1 (h.2 a ha.2)⟩

/-- What has come to its end without an overflow has come to the end of the dialogue with which it
agrees. -/
theorem Agrees.returned {σ : Type} {answer? : (q : Q) → StateT σ (Except Overflow) (A q)}
    {answer : (q : Q) → StateM σ (A q)} {d? : Dialogue Q A (Except Overflow β)}
    {d : Dialogue Q A β} (agrees : Agrees strict told d? d)
    (same : ∀ q m p, answer? q m = .ok p → answer q m = p ∧ told q p.1) {m m' : σ} {b : β}
    (h : d?.answerBy answer? m = .ok (.ok b, m')) : d.answerBy answer m = (b, m') := by
  induction agrees generalizing m with
  | done b' =>
    cases h
    rfl
  | overflows _ overflow d => cases h
  | ask q agrees ih =>
    change (answer? q m >>= fun p => Dialogue.answerBy answer? _ p.2) = _ at h
    cases hanswer : answer? q m with
    | error overflow =>
      rw [hanswer] at h
      cases h
    | ok p =>
      rw [hanswer] at h
      obtain ⟨hsame, htold⟩ := same q m p hanswer
      show (let p := answer q m; Dialogue.answerBy answer _ p.2) = _
      rw [hsame]
      exact ih p.1 htold h

/-- A checked answer is the answer of the dialogue, which has not overflowed. -/
theorem answerChecked_eq_ok {σ : Type} {answer : (q : Q) → StateT σ (Except Overflow) (A q)}
    {d : Dialogue Q A (Except Overflow β)} {m m' : σ} {b : β} :
    d.answerChecked answer m = .ok (b, m') ↔ d.answerBy answer m = .ok (.ok b, m') := by
  show (d.answerBy answer m >>= _) = _ ↔ _
  cases d.answerBy answer m with
  | error overflow => exact ⟨nofun, nofun⟩
  | ok p =>
    obtain ⟨x, m₁⟩ := p
    cases x with
    | error overflow => exact ⟨nofun, nofun⟩
    | ok b' =>
      constructor
      · rintro ⟨⟩
        rfl
      · rintro ⟨⟩
        rfl

end

end Dialogue

/-! ### Requests -/

namespace Ledger.Fields

open Dialogue

/-- The clock tells such a time, and the server no time to live beyond those that it counts. -/
def Request.Shows (told : Millis → Prop) : (q : Request) → q.Answer → Prop
  | .now, t => told t
  | .store (.read _), .ok (_, ttl) => -9223372036854775 ≤ ttl ∧ ttl ≤ 9223372036854775
  | _, _ => True

/-- What is left of the record is in range at such times. -/
def Remains (told : Millis → Prop) (r : Record) : Prop :=
  ∀ (expiry : Int) (t : Millis), r.expiry = some expiry → told t →
    Word.InRange (expiry - secondsOf t)

section

variable {names : FieldNames} {strict : Prop} {told : Millis → Prop} {r : Record} {key : Key}
  {fields : FieldStore.Fields} {ttl : Int}

/-- What follows a question that both ask. -/
theorem agrees_query {β : Type} (q : Request) {f? : q.Answer → ExceptT Overflow Action β}
    {f : q.Answer → Action β}
    (h : ∀ a, q.Shows told a → Agrees strict (Request.Shows told) (f? a).run (f a)) :
    Agrees strict (Request.Shows told) (liftM (query q : Action q.Answer) >>= f?).run
      (query q >>= f) :=
  .ask q h

theorem agrees_ttl (hr : strict → Remains told r) :
    Agrees strict (Request.Shows told) (ttlM r : ExceptT Overflow Action (Option Int)).run
      (ttlOf r) := by
  unfold ttlOf ttlM
  cases hexpiry : r.expiry with
  | none => exact .done none
  | some expiry =>
    exact agrees_query .now fun t ht =>
      (agrees_figure fun hs => hr hs expiry t hexpiry ht).bind fun n => .done _

theorem agrees_overwrite (hr : strict → Remains told r) :
    Agrees strict (Request.Shows told)
      (overwriteM names r : ExceptT Overflow Action (Except Error Outcome)).run
      (overwrite names r) := by
  unfold overwrite overwriteM
  refine (agrees_ttl hr).bind fun ttl => agrees_query .token fun token _ =>
    agrees_query (.store _) fun locked _ => ?_
  rcases locked with e | _ | _
  · exact .done _
  · exact .done _
  · refine agrees_query (.store _) fun replaced _ => ?_
    cases replaced <;> exact .done _

section

variable (told_inRange : strict → ∀ t, told t → Word.InRange t)

include told_inRange

theorem agrees_record (hleast : -9223372036854775 ≤ ttl) (hmost : ttl ≤ 9223372036854775) :
    Agrees strict (Request.Shows told)
      (recordM names key fields ttl : ExceptT Overflow Action (Except Error Record)).run
      (recordOf names key fields ttl) := by
  unfold recordOf recordM
  cases Status.parse ((fields.get? names.status).getD "") with
  | error e => exact .done _
  | ok status =>
    by_cases httl : 0 ≤ ttl
    · simp only [if_pos httl]
      refine agrees_query .now fun t ht => ?_
      have hsum : strict → Word.InRange (secondsOf t + ttl) := by
        intro hs
        have hrange := told_inRange hs t ht
        unfold Word.InRange Word.least Word.greatest secondsOf at *
        omega
      exact (agrees_figure hsum).bind fun n => .done _
    · simp only [if_neg httl]
      exact .done _

theorem agrees_blocks (hleast : -9223372036854775 ≤ ttl) (hmost : ttl ≤ 9223372036854775) :
    Agrees strict (Request.Shows told)
      (blocksM names key fields ttl : ExceptT Overflow Action Bool).run
      (blocks names key fields ttl) := by
  unfold blocks blocksM
  by_cases hempty : fields.isEmpty = true
  · rw [if_pos hempty, if_pos hempty]
    exact .done false
  · rw [if_neg hempty, if_neg hempty]
    refine (agrees_record told_inRange hleast hmost).bind fun found => ?_
    cases found with
    | error e => exact .done false
    | ok r => exact agrees_query .now fun t _ => .done _

theorem agrees_claim (hr : strict → Remains told r) :
    Agrees strict (Request.Shows told)
      (claimM names r : ExceptT Overflow Action (Except Error Outcome)).run (claim names r) := by
  unfold claim claimM
  refine agrees_query (.store _) fun claimed _ => ?_
  rcases claimed with e | _ | _
  · exact .done _
  · refine agrees_query (.store _) fun read hread => ?_
    cases read with
    | error e => exact .done _
    | ok shown =>
      obtain ⟨hleast, hmost⟩ := hread
      refine (agrees_blocks told_inRange hleast hmost).bind fun blocked => ?_
      cases blocked with
      | true => exact .done _
      | false => exact agrees_overwrite hr
  · refine (agrees_ttl hr).bind fun ttl => agrees_query (.store _) fun written _ => ?_
    cases written <;> exact .done _

theorem agrees_find :
    Agrees strict (Request.Shows told)
      (findM names key : ExceptT Overflow Action (Except Error Record)).run (find names key) := by
  unfold find findM
  refine agrees_query (.store _) fun read hread => ?_
  cases read with
  | error e => exact .done _
  | ok shown =>
    obtain ⟨fields, ttl⟩ := shown
    obtain ⟨hleast, hmost⟩ := hread
    by_cases hempty : fields.isEmpty = true
    · simp only [if_pos hempty]
      exact .done _
    · simp only [if_neg hempty]
      exact agrees_record told_inRange hleast hmost

/-- **A request that checks its figures asks and ends like one that does not, up to the first that
leaves the range.** -/
theorem checked_agrees (names : FieldNames) {q : Ledger.Request}
    (hq : strict → ∀ r, q.record? = some r → Remains told r) :
    Agrees strict (Request.Shows told) (checked names q) (perform names q) := by
  cases q with
  | claim r => exact agrees_claim told_inRange fun hs => hq hs r rfl
  | find key => exact agrees_find told_inRange
  | complete r =>
    refine (agrees_ttl fun hs => hq hs r rfl).bind fun ttl => ?_
    exact agrees_query (.store _) fun a _ => .done a
  | remove key => exact agrees_query (.store _) fun a _ => .done a

end

end

end Ledger.Fields

end AtMostOnce
