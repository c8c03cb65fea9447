/-
What is said in a dialogue.

A trace lists the questions of a dialogue with the answers that they were given, whoever
gave them.  `Leads` takes a dialogue along a trace to what is left of it; nothing else is
said about the answers, so a fact about every trace is a fact about every way to answer.

A dialogue that follows a protocol does so along each of its traces: what is said is
allowed, and whatever an exchange keeps of the trace so far and the phase holds at every
point of the trace (`Follows.holds`).
-/
import AtMostOnce.Proofs.Protocol

namespace AtMostOnce

/-- A question and its answer. -/
structure Exchange (Q : Type) (A : Q → Type) where
  question : Q
  answer : A question

/-- What was said in a dialogue, from its beginning on. -/
abbrev Trace (Q : Type) (A : Q → Type) := List (Exchange Q A)

variable {Q : Type} {A : Q → Type} {τ β γ : Type}

/-- The phase after some exchanges. -/
def Protocol.phase (P : Protocol Q A τ) (s : τ) (said : Trace Q A) : τ :=
  said.foldl (fun s x => P.after s x.question x.answer) s

theorem Protocol.both_phase {τ' : Type} (P : Protocol Q A τ) (P' : Protocol Q A τ') (s : τ)
    (s' : τ') (said : Trace Q A) :
    (P.both P').phase (s, s') said = (P.phase s said, P'.phase s' said) := by
  induction said generalizing s s' with
  | nil => rfl
  | cons x said ih => exact ih _ _

namespace Dialogue

/-- The exchanges lead from the one dialogue to the other. -/
inductive Leads : Dialogue Q A β → Trace Q A → Dialogue Q A β → Prop
  | here (d : Dialogue Q A β) : Leads d [] d
  | on (q : Q) (a : A q) {next : A q → Dialogue Q A β} {said : Trace Q A} {rest : Dialogue Q A β}
    (h : Leads (next a) said rest) : Leads (ask q next) (⟨q, a⟩ :: said) rest

/-- What is said in one dialogue after the other is said in the first one, before its end, or in the
first one to its end and then in the second one. -/
theorem Leads.of_bind {d : Dialogue Q A β} {f : β → Dialogue Q A γ} {said : Trace Q A}
    {rest : Dialogue Q A γ} (h : (d >>= f).Leads said rest) :
    (∃ d', d.Leads said d' ∧ rest = d' >>= f ∧ rest.result? = none) ∨
      ∃ b before after, said = before ++ after ∧ d.Leads before (done b) ∧
        (f b).Leads after rest := by
  induction d generalizing said with
  | done b => exact .inr ⟨b, [], said, rfl, .here _, h⟩
  | ask q next ih =>
    cases h with
    | here => exact .inl ⟨_, .here _, rfl, rfl⟩
    | on q a h =>
      rcases ih a h with ⟨d', hd, hrest⟩ | ⟨b, before, after, rfl, hd, hf⟩
      · exact .inl ⟨d', .on q a hd, hrest⟩
      · exact .inr ⟨b, ⟨q, a⟩ :: before, after, rfl, .on q a hd, hf⟩

theorem Leads.bind {d : Dialogue Q A β} {f : β → Dialogue Q A γ} {said more : Trace Q A} {b : β}
    {rest : Dialogue Q A γ} (h : d.Leads said (done b)) (hf : (f b).Leads more rest) :
    (d >>= f).Leads (said ++ more) rest := by
  induction said generalizing d with
  | nil =>
    cases h
    exact hf
  | cons x said ih =>
    cases h with
    | on q a h => exact .on q a (ih h)

theorem Leads.of_append {d rest : Dialogue Q A β} {before after : Trace Q A}
    (h : d.Leads (before ++ after) rest) : ∃ d', d.Leads before d' ∧ d'.Leads after rest := by
  induction before generalizing d with
  | nil => exact ⟨d, .here d, h⟩
  | cons x before ih =>
    cases h with
    | on q a h =>
      obtain ⟨d', hd, hrest⟩ := ih h
      exact ⟨d', .on q a hd, hrest⟩

/-- What is said in a dialogue that is answered from a state, and how it ends. -/
def tell {σ : Type} (answer : (q : Q) → σ → A q × σ) : Dialogue Q A β → σ → Trace Q A × β
  | done b, _ => ([], b)
  | ask q next, s =>
    let told := tell answer (next (answer q s).1) (answer q s).2
    (⟨q, (answer q s).1⟩ :: told.1, told.2)

theorem leads_tell {σ : Type} (answer : (q : Q) → σ → A q × σ) (d : Dialogue Q A β) (s : σ) :
    d.Leads (d.tell answer s).1 (done (d.tell answer s).2) := by
  induction d generalizing s with
  | done b => exact .here _
  | ask q next ih => exact .on q _ (ih _ _)

theorem tell_result {σ : Type} (answer : (q : Q) → σ → A q × σ) (d : Dialogue Q A β) (s : σ) :
    (d.tell answer s).2 = (d.answerBy (m := StateM σ) answer s).1 := by
  induction d generalizing s with
  | done b => rfl
  | ask q next ih => exact ih _ _

/-! ### Traces of a dialogue that follows a protocol -/

variable {P : Protocol Q A τ} {ends : τ → β → Prop} {d rest : Dialogue Q A β} {s : τ}
  {said : Trace Q A}

/-- **What an exchange keeps of the trace so far and of the phase holds along every trace.** -/
theorem Follows.holds (kept : Trace Q A → τ → Prop) (h : d.Follows P ends s)
    (hl : d.Leads said rest) (accepted : ∀ x ∈ said, P.accepts x.question x.answer)
    (h0 : kept [] s)
    (step : ∀ said s x, kept said s → P.allows s x.question → P.accepts x.question x.answer →
      kept (said ++ [x]) (P.after s x.question x.answer)) :
    kept said (P.phase s said) ∧ rest.Follows P ends (P.phase s said) := by
  suffices along : ∀ before, kept before s →
      kept (before ++ said) (P.phase s said) ∧ rest.Follows P ends (P.phase s said) from
    along [] h0
  clear h0
  induction hl generalizing s with
  | here d =>
    intro before hk
    exact ⟨by rwa [List.append_nil], h⟩
  | on q a hl ih =>
    intro before hk
    obtain ⟨hq, hnext⟩ := h
    have ha := accepted _ List.mem_cons_self
    have hk' := step before s ⟨q, a⟩ hk hq ha
    obtain ⟨hkept, hrest⟩ := ih (hnext a ha) (fun x hx => accepted x (List.mem_cons_of_mem _ hx))
      _ hk'
    rw [List.append_assoc] at hkept
    exact ⟨hkept, hrest⟩

/-- What each answer keeps of the state and the phase holds when a dialogue is answered to its end
from a state, in the phase to which its trace leads. -/
theorem Follows.told {σ : Type} {answer : (q : Q) → σ → A q × σ} (kept : σ → τ → Prop) {m : σ}
    (h : d.Follows P ends s) (h0 : kept m s)
    (step : ∀ q m s, kept m s → P.allows s q →
      P.accepts q (answer q m).1 ∧ kept (answer q m).2 (P.after s q (answer q m).1)) :
    kept (d.answerBy (m := StateM σ) answer m).2 (P.phase s (d.tell answer m).1) ∧
      ends (P.phase s (d.tell answer m).1) (d.tell answer m).2 := by
  induction d generalizing s m with
  | done b => exact ⟨h0, h⟩
  | ask q next ih =>
    obtain ⟨hq, hnext⟩ := h
    obtain ⟨ha, hk⟩ := step q m s h0 hq
    exact ih _ (hnext _ ha) hk

/-- What is said in the middle of a trace is allowed there. -/
theorem Follows.holds_at (kept : Trace Q A → τ → Prop) {before after : Trace Q A}
    {x : Exchange Q A} (h : d.Follows P ends s) (hl : d.Leads (before ++ x :: after) rest)
    (accepted : ∀ x ∈ before, P.accepts x.question x.answer) (h0 : kept [] s)
    (step : ∀ said s x, kept said s → P.allows s x.question → P.accepts x.question x.answer →
      kept (said ++ [x]) (P.after s x.question x.answer)) :
    kept before (P.phase s before) ∧ P.allows (P.phase s before) x.question := by
  obtain ⟨d', hbefore, hafter⟩ := hl.of_append
  obtain ⟨hkept, hd⟩ := h.holds kept hbefore accepted h0 step
  cases hafter with
  | on q a hafter => exact ⟨hkept, hd.1⟩

end Dialogue

end AtMostOnce
