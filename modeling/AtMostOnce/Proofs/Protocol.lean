/-
What a dialogue may ask, and how it may end.

A protocol sorts the moments of a dialogue into phases: it says which questions a
phase allows and to which phase an answer leads.  `Follows` says that a dialogue
keeps to a protocol whatever it is answered, and that it ends in a phase and with a
result that belong together.  Everything that is proved later about many dialogues
at once is proved about their phases, so a dialogue's text is read only here: once,
function by function, along its binds (`follows_bind`).
-/
import AtMostOnce.Dialogue

namespace AtMostOnce

variable {Q : Type} {A : Q → Type} {τ β γ : Type}

/-- Rules for a dialogue, by phases. -/
structure Protocol (Q : Type) (A : Q → Type) (τ : Type) where
  /-- May the question be asked in the phase? -/
  allows : τ → Q → Prop
  /-- Can the question be answered so? -/
  accepts : (q : Q) → A q → Prop
  /-- The phase to which an answer leads. -/
  after : τ → (q : Q) → A q → τ

/-- Two protocols at once, each with a phase of its own. -/
@[reducible] def Protocol.both {τ' : Type} (P : Protocol Q A τ) (P' : Protocol Q A τ') :
    Protocol Q A (τ × τ') where
  allows s q := P.allows s.1 q ∧ P'.allows s.2 q
  accepts q a := P.accepts q a ∧ P'.accepts q a
  after s q a := (P.after s.1 q a, P'.after s.2 q a)

namespace Dialogue

def result? : Dialogue Q A β → Option β
  | done b => some b
  | ask _ _ => none

theorem result?_eq_some {d : Dialogue Q A β} {b : β} : d.result? = some b ↔ d = done b := by
  cases d with
  | done b' => simp [result?]
  | ask q next => simp [result?]

variable {P : Protocol Q A τ}

/-- From a phase on the dialogue asks only what is allowed, and it ends as `ends` says. -/
def Follows (P : Protocol Q A τ) (ends : τ → β → Prop) : Dialogue Q A β → τ → Prop
  | done b, s => ends s b
  | ask q next, s => P.allows s q ∧ ∀ a, P.accepts q a → Follows P ends (next a) (P.after s q a)

@[simp] theorem follows_done {ends : τ → β → Prop} {b : β} {s : τ} :
    (done b : Dialogue Q A β).Follows P ends s ↔ ends s b := Iff.rfl

@[simp] theorem follows_ask {ends : τ → β → Prop} {q : Q} {next : A q → Dialogue Q A β} {s : τ} :
    (ask q next).Follows P ends s ↔
      P.allows s q ∧ ∀ a, P.accepts q a → (next a).Follows P ends (P.after s q a) := Iff.rfl

/-- One dialogue after the other follows a protocol if the first one ends where the second one
follows it. -/
theorem follows_bind {ends : τ → γ → Prop} (d : Dialogue Q A β) (f : β → Dialogue Q A γ) (s : τ) :
    (d >>= f).Follows P ends s ↔ d.Follows P (fun s b => (f b).Follows P ends s) s := by
  induction d generalizing s with
  | done b => rfl
  | ask q next ih =>
    rw [ask_bind, follows_ask, follows_ask]
    exact and_congr_right fun _ => forall_congr' fun a => imp_congr_right fun _ => ih a _

theorem Follows.mono {ends ends' : τ → β → Prop} (h : ∀ s b, ends s b → ends' s b)
    {d : Dialogue Q A β} {s : τ} (hd : d.Follows P ends s) : d.Follows P ends' s := by
  induction d generalizing s with
  | done b => exact h s b hd
  | ask q next ih =>
    obtain ⟨hq, hnext⟩ := hd
    exact ⟨hq, fun a ha => ih a (hnext a ha)⟩

/-- What keeps to rules without phases keeps to laxer ones. -/
theorem Follows.widen {R R' : Protocol Q A Unit} {ends : Unit → β → Prop} {d : Dialogue Q A β}
    (hd : d.Follows R ends ()) (allowed : ∀ q, R.allows () q → R'.allows () q)
    (accepted : ∀ q a, R'.accepts q a → R.accepts q a) : d.Follows R' ends () := by
  induction d with
  | done b => exact hd
  | ask q next ih =>
    obtain ⟨hq, hnext⟩ := hd
    exact ⟨allowed q hq, fun a ha => ih a (hnext a (accepted q a ha))⟩

theorem Follows.both {τ' : Type} {P' : Protocol Q A τ'} {ends : τ → β → Prop}
    {ends' : τ' → β → Prop} {d : Dialogue Q A β} {s : τ} {s' : τ'}
    (h : d.Follows P ends s) (h' : d.Follows P' ends' s') :
    d.Follows (P.both P') (fun p b => ends p.1 b ∧ ends' p.2 b) (s, s') := by
  induction d generalizing s s' with
  | done b => exact ⟨h, h'⟩
  | ask q next ih => exact ⟨⟨h.1, h'.1⟩, fun a ha => ih a (h.2 a ha.1) (h'.2 a ha.2)⟩

/-- What each answer keeps of the state and the phase holds when a dialogue is answered to its end
from a state. -/
theorem Follows.answered {σ : Type} {answer : (q : Q) → StateM σ (A q)} {ends : τ → β → Prop}
    (kept : σ → τ → Prop) {d : Dialogue Q A β} {s : τ} (h : d.Follows P ends s) {m : σ}
    (h0 : kept m s)
    (step : ∀ q m s, kept m s → P.allows s q →
      P.accepts q (answer q m).1 ∧ kept (answer q m).2 (P.after s q (answer q m).1)) :
    ∃ s', kept (d.answerBy answer m).2 s' ∧ ends s' (d.answerBy answer m).1 := by
  induction d generalizing s m with
  | done b => exact ⟨s, h0, h⟩
  | ask q next ih =>
    obtain ⟨hq, hnext⟩ := h
    obtain ⟨ha, hk⟩ := step q m s h0 hq
    exact ih _ (hnext _ ha) hk

section

variable {ε σ : Type} {answer : (q : Q) → StateT σ (Except ε) (A q)} {ends : τ → β → Prop}
  (kept : σ → τ → Prop) {d : Dialogue Q A β} {s : τ} {m : σ}

/-- A dialogue comes to its end if no answer to what is allowed fails, and then what each answer
keeps holds. -/
theorem Follows.returns (h : d.Follows P ends s) (h0 : kept m s)
    (step : ∀ q m s, kept m s → P.allows s q →
      ∃ a m', answer q m = .ok (a, m') ∧ P.accepts q a ∧ kept m' (P.after s q a)) :
    ∃ b m' s', d.answerBy answer m = .ok (b, m') ∧ kept m' s' ∧ ends s' b := by
  induction d generalizing s m with
  | done b => exact ⟨b, m, s, rfl, h0, h⟩
  | ask q next ih =>
    obtain ⟨hq, hnext⟩ := h
    obtain ⟨a, m', hanswer, ha, hk⟩ := step q m s h0 hq
    obtain ⟨b, m'', s', hrest, hends⟩ := ih a (hnext a ha) hk
    refine ⟨b, m'', s', ?_, hends⟩
    show (answer q m >>= fun p => (next p.1).answerBy answer p.2) = _
    rw [hanswer]
    exact hrest

/-- What each answer keeps holds when a dialogue has come to its end, whether or not it must. -/
theorem Follows.returned (h : d.Follows P ends s) (h0 : kept m s)
    (step : ∀ q m s a m', kept m s → P.allows s q → answer q m = .ok (a, m') →
      P.accepts q a ∧ kept m' (P.after s q a))
    {b : β} {m' : σ} (hreturned : d.answerBy answer m = .ok (b, m')) :
    ∃ s', kept m' s' ∧ ends s' b := by
  induction d generalizing s m with
  | done b' =>
    cases hreturned
    exact ⟨s, h0, h⟩
  | ask q next ih =>
    obtain ⟨hq, hnext⟩ := h
    change (answer q m >>= fun p => (next p.1).answerBy answer p.2) = _ at hreturned
    cases hanswer : answer q m with
    | error e =>
      rw [hanswer] at hreturned
      cases hreturned
    | ok p =>
      obtain ⟨a, m₁⟩ := p
      rw [hanswer] at hreturned
      obtain ⟨ha, hk⟩ := step q m s a m₁ h0 hq hanswer
      exact ih a (hnext a ha) hk hreturned

end

end Dialogue

end AtMostOnce
