/-
Several dialogues that take turns over one shared state.

A scene says how the shared state answers a question and how it changes by itself.
An execution is a line of states with an event between each two: some dialogue asks
its next question and is answered, or the state drifts.  Nothing is said about whose
turn it is, so a fact about every execution is a fact about every interleaving.

The phase of a dialogue is read off the events, and as long as the answers are ones
that the protocol accepts, the dialogue follows the protocol from its phase on
(`follows_phase`).  Any list of turns and drifts can be played (`Player.play`).
-/
import AtMostOnce.Proofs.Protocol
import Mathlib.Data.Nat.Init
import Mathlib.Logic.Function.Basic

namespace AtMostOnce

/-- A shared state that answers questions. -/
structure Scene (ι Q : Type) (A : Q → Type) (σ : Type) where
  /-- Can the state answer someone's question so, and become the other state by that? -/
  answers : ι → (q : Q) → A q → σ → σ → Prop
  /-- Can the state become the other one by itself? -/
  drifts : σ → σ → Prop

inductive Execution.Event (ι Q : Type) (A : Q → Type) where
  | exchange (who : ι) (question : Q) (answer : A question)
  | drift

/-- Whose turn it is. -/
def Execution.Event.who? {ι Q : Type} {A : Q → Type} : Event ι Q A → Option ι
  | exchange i _ _ => some i
  | drift => none

variable {ι Q : Type} {A : Q → Type} {σ τ β : Type} [DecidableEq ι]

/-- The dialogues after an event, which is one that can happen. -/
def Scene.Step (S : Scene ι Q A σ) (s : σ) (talk : ι → Dialogue Q A β) (s' : σ)
    (talk' : ι → Dialogue Q A β) : Execution.Event ι Q A → Prop
  | .exchange i q a =>
    ∃ next, talk i = .ask q next ∧ S.answers i q a s s' ∧ talk' = Function.update talk i (next a)
  | .drift => S.drifts s s' ∧ talk' = talk

/-- Dialogues that take turns, from their beginnings on. -/
structure Execution (S : Scene ι Q A σ) (begins : ι → Dialogue Q A β) where
  length : Nat
  state : Nat → σ
  /-- What is left of the dialogues. -/
  talk : Nat → ι → Dialogue Q A β
  event : Nat → Execution.Event ι Q A
  talk_zero : talk 0 = begins
  step : ∀ n < length, S.Step (state n) (talk n) (state (n + 1)) (talk (n + 1)) (event n)

namespace Execution

variable {S : Scene ι Q A σ} {begins : ι → Dialogue Q A β} (x : Execution S begins)

/-- Someone's question is answered in the `n`-th event. -/
def Says (n : Nat) (i : ι) (q : Q) (a : A q) : Prop :=
  n < x.length ∧ x.event n = .exchange i q a

/-- Someone's dialogue is done, with a result. -/
def Ends (i : ι) (b : β) : Prop := ∃ n ≤ x.length, x.talk n i = .done b

/-- The phase that someone's dialogue has come to. -/
def phase (P : Protocol Q A τ) (first : τ) (i : ι) : Nat → τ
  | 0 => first
  | n + 1 =>
    match x.event n with
    | .exchange j q a => if j = i then P.after (phase P first i n) q a else phase P first i n
    | .drift => phase P first i n

variable {x}

theorem Says.answers {n : Nat} {i : ι} {q : Q} {a : A q} (h : x.Says n i q a) :
    S.answers i q a (x.state n) (x.state (n + 1)) := by
  obtain ⟨hn, he⟩ := h
  have hs := x.step n hn
  rw [he] at hs
  obtain ⟨next, -, ha, -⟩ := hs
  exact ha

theorem Says.unique {n : Nat} {i j : ι} {q q' : Q} {a : A q} {a' : A q'} (h : x.Says n i q a)
    (h' : x.Says n j q' a') : i = j ∧ q = q' ∧ HEq a a' := by
  have he := h.2.symm.trans h'.2
  injection he with hi hq ha
  exact ⟨hi, hq, ha⟩

theorem Says.who {n : Nat} {i : ι} {q : Q} {a : A q} (h : x.Says n i q a) :
    (x.event n).who? = some i := by rw [h.2, Event.who?]

theorem Says.phase_succ {P : Protocol Q A τ} {first : τ} {n : Nat} {i : ι} {q : Q} {a : A q}
    (h : x.Says n i q a) : x.phase P first i (n + 1) = P.after (x.phase P first i n) q a := by
  simp only [phase, h.2, if_pos]

/-- Either a dialogue has its turn, or its phase stays. -/
theorem phase_succ_cases (P : Protocol Q A τ) (first : τ) (i : ι) {n : Nat} (hn : n < x.length) :
    (∃ q a, x.Says n i q a) ∨ x.phase P first i (n + 1) = x.phase P first i n := by
  cases he : x.event n with
  | drift => right; simp only [phase, he]
  | exchange j q a =>
    by_cases hj : j = i
    · subst hj
      exact .inl ⟨q, a, hn, he⟩
    · right
      simp only [phase, he, if_neg hj]

/-- What no answer ends holds of the phase from some time on. -/
theorem phase_stays {P : Protocol Q A τ} {first : τ} {i : ι} {p : τ → Prop}
    (hp : ∀ s q a, p s → p (P.after s q a)) {m n : Nat} (h : p (x.phase P first i m))
    (hmn : m ≤ n) (hn : n ≤ x.length) : p (x.phase P first i n) := by
  induction n, hmn using Nat.le_induction with
  | base => exact h
  | succ n hmn ih =>
    rcases phase_succ_cases P first i (Nat.lt_of_succ_le hn) with ⟨q, a, hs⟩ | hs
    · rw [hs.phase_succ]
      exact hp _ q a (ih (by omega))
    · rw [hs]
      exact ih (by omega)

/-- What does not hold of the first phase comes about by some answer. -/
theorem phase_arises {P : Protocol Q A τ} {first : τ} {i : ι} {p : τ → Prop} (h0 : ¬ p first)
    {n : Nat} (hn : n ≤ x.length) (h : p (x.phase P first i n)) :
    ∃ m < n, ∃ q a, x.Says m i q a ∧ ¬ p (x.phase P first i m) ∧
      p (P.after (x.phase P first i m) q a) := by
  induction n with
  | zero => exact absurd h h0
  | succ n ih =>
    by_cases hp : p (x.phase P first i n)
    · obtain ⟨m, hm, hs⟩ := ih (by omega) hp
      exact ⟨m, by omega, hs⟩
    · rcases phase_succ_cases P first i (Nat.lt_of_succ_le hn) with ⟨q, a, hs⟩ | hs
      · rw [hs.phase_succ] at h
        exact ⟨n, by omega, q, a, hs, hp, h⟩
      · rw [hs] at h
        exact absurd h hp

/-- What holds of a phase and not of a later one is ended by some answer. -/
theorem phase_leaves {P : Protocol Q A τ} {first : τ} {i : ι} {p : τ → Prop} {m n : Nat}
    (h : p (x.phase P first i m)) (hnot : ¬ p (x.phase P first i n)) (hmn : m ≤ n)
    (hn : n ≤ x.length) :
    ∃ l, m ≤ l ∧ l < n ∧ ∃ q a, x.Says l i q a ∧ p (x.phase P first i l) ∧
      ¬ p (P.after (x.phase P first i l) q a) := by
  induction n, hmn using Nat.le_induction with
  | base => exact absurd h hnot
  | succ n hmn ih =>
    by_cases hp : p (x.phase P first i n)
    · rcases phase_succ_cases P first i (Nat.lt_of_succ_le hn) with ⟨q, a, hs⟩ | hs
      · rw [hs.phase_succ] at hnot
        exact ⟨n, hmn, Nat.lt_succ_self n, q, a, hs, hp, hnot⟩
      · rw [hs] at hnot
        exact absurd hp hnot
    · obtain ⟨l, hml, hln, hl⟩ := ih hp (by omega)
      exact ⟨l, hml, by omega, hl⟩

/-- A dialogue that is done stays as it is. -/
theorem done_stays {i : ι} {b : β} {m n : Nat} (h : x.talk m i = .done b) (hmn : m ≤ n)
    (hn : n ≤ x.length) : x.talk n i = .done b := by
  induction n, hmn using Nat.le_induction with
  | base => exact h
  | succ n hmn ih =>
    have hs := x.step n (Nat.lt_of_succ_le hn)
    have hdone := ih (by omega)
    cases he : x.event n with
    | drift =>
      rw [he] at hs
      rw [hs.2]
      exact hdone
    | exchange j q a =>
      rw [he] at hs
      obtain ⟨next, hask, -, htalk⟩ := hs
      have hj : i ≠ j := by
        rintro rfl
        rw [hask] at hdone
        cases hdone
      rw [htalk, Function.update_of_ne hj]
      exact hdone

theorem Ends.at_length {i : ι} {b : β} (h : x.Ends i b) : x.talk x.length i = .done b := by
  obtain ⟨n, hn, hdone⟩ := h
  exact done_stays hdone hn (Nat.le_refl _)

/-- A dialogue that is done has asked what it begins with. -/
theorem Ends.asked {i : ι} {q : Q} {next : A q → Dialogue Q A β} {b : β} (h : x.Ends i b)
    (hask : begins i = .ask q next) : ∃ n a, x.Says n i q a := by
  obtain ⟨n, hn, hdone⟩ := h
  by_contra hnot
  have waits : ∀ m ≤ x.length, x.talk m i = .ask q next := by
    intro m
    induction m with
    | zero => intro _; rw [x.talk_zero, hask]
    | succ m ih =>
      intro hm
      have before := ih (by omega)
      have hs := x.step m hm
      cases he : x.event m with
      | drift =>
        rw [he] at hs
        rw [hs.2, before]
      | exchange j q' a =>
        rw [he] at hs
        obtain ⟨next', hask', -, htalk⟩ := hs
        by_cases hj : j = i
        · subst hj
          rw [before] at hask'
          cases hask'
          exact absurd ⟨m, a, hm, he⟩ hnot
        · rw [htalk, Function.update_of_ne (Ne.symm hj), before]
  rw [waits n hn] at hdone
  cases hdone

/-- Everybody's phases after somebody's turn. -/
theorem Says.phases_succ {P : ι → Protocol Q A τ} {first : τ} {n : Nat} {i : ι} {q : Q} {a : A q}
    (h : x.Says n i q a) :
    (fun j => x.phase (P j) first j (n + 1)) =
      Function.update (fun j => x.phase (P j) first j n) i
        ((P i).after (x.phase (P i) first i n) q a) := by
  funext j
  by_cases hj : j = i
  · subst hj
    rw [Function.update_self, h.phase_succ]
  · rw [Function.update_of_ne hj]
    simp only [phase, h.2, if_neg (Ne.symm hj)]

/-- **A dialogue follows the protocol from its phase on.** -/
theorem follows_phase {P : Protocol Q A τ} {first : τ} {ends : τ → β → Prop} {i : ι}
    (h0 : (begins i).Follows P ends first)
    (honest : ∀ n q a, x.Says n i q a → P.accepts q a) :
    ∀ n ≤ x.length, (x.talk n i).Follows P ends (x.phase P first i n) := by
  intro n
  induction n with
  | zero => intro _; rw [x.talk_zero]; exact h0
  | succ n ih =>
    intro hn
    have hs := x.step n hn
    cases he : x.event n with
    | drift =>
      rw [he] at hs
      rw [hs.2]
      simpa only [phase, he] using ih (by omega)
    | exchange j q a =>
      rw [he] at hs
      obtain ⟨next, hask, -, htalk⟩ := hs
      rw [htalk]
      by_cases hj : j = i
      · subst hj
        have hf := ih (by omega)
        rw [hask] at hf
        rw [Function.update_self, Says.phase_succ ⟨hn, he⟩]
        exact hf.2 a (honest n q a ⟨hn, he⟩)
      · rw [Function.update_of_ne (Ne.symm hj)]
        simpa only [phase, he, if_neg hj] using ih (by omega)

theorem Says.allowed {P : Protocol Q A τ} {first : τ} {ends : τ → β → Prop} {n : Nat} {i : ι}
    {q : Q} {a : A q} (h : x.Says n i q a) (h0 : (begins i).Follows P ends first)
    (honest : ∀ n q a, x.Says n i q a → P.accepts q a) : P.allows (x.phase P first i n) q := by
  have hs := x.step n h.1
  rw [h.2] at hs
  obtain ⟨next, hask, -, -⟩ := hs
  have hf := follows_phase h0 honest n (Nat.le_of_lt h.1)
  rw [hask] at hf
  exact hf.1

end Execution

/-! ### Schedules -/

/-- A way to answer every question, and to drift on demand. -/
structure Player (S : Scene ι Q A σ) (δ : Type) where
  answer : ι → (q : Q) → σ → A q × σ
  drift : δ → σ → σ
  answers : ∀ i q s, S.answers i q (answer i q s).1 s (answer i q s).2
  drifts : ∀ d s, S.drifts s (drift d s)
  idles : ∀ s, S.drifts s s

structure Moment (ι Q : Type) (A : Q → Type) (σ β : Type) where
  state : σ
  talk : ι → Dialogue Q A β

/-- So many turns of one dialogue. -/
def turns {δ : Type} (i : ι) (n : Nat) : List (ι ⊕ δ) := List.replicate n (.inl i)

namespace Player

variable {S : Scene ι Q A σ} {δ : Type} (p : Player S δ)

/-- What happens if someone has a turn, or the state drifts.  A dialogue that is done lets its turn
pass. -/
def next (m : Moment ι Q A σ β) : ι ⊕ δ → Execution.Event ι Q A × Moment ι Q A σ β
  | .inl i =>
    match m.talk i with
    | .done _ => (.drift, m)
    | .ask q f =>
      (.exchange i q (p.answer i q m.state).1,
        ⟨(p.answer i q m.state).2, Function.update m.talk i (f (p.answer i q m.state).1)⟩)
  | .inr d => (.drift, ⟨p.drift d m.state, m.talk⟩)

/-- The moment before the `n`-th move of a schedule. -/
def moment (m : Moment ι Q A σ β) : List (ι ⊕ δ) → Nat → Moment ι Q A σ β
  | _, 0 => m
  | [], _ + 1 => m
  | move :: rest, n + 1 => moment (p.next m move).2 rest n

/-- What happens in the `n`-th move of a schedule. -/
def event (m : Moment ι Q A σ β) : List (ι ⊕ δ) → Nat → Execution.Event ι Q A
  | [], _ => .drift
  | move :: _, 0 => (p.next m move).1
  | move :: rest, n + 1 => event (p.next m move).2 rest n

theorem next_step (m : Moment ι Q A σ β) (move : ι ⊕ δ) :
    S.Step m.state m.talk (p.next m move).2.state (p.next m move).2.talk (p.next m move).1 := by
  cases move with
  | inl i =>
    simp only [next]
    cases hm : m.talk i with
    | done b => exact ⟨p.idles _, rfl⟩
    | ask q f => exact ⟨f, hm, p.answers i q m.state, rfl⟩
  | inr d => exact ⟨p.drifts d _, rfl⟩

theorem moment_step (m : Moment ι Q A σ β) (schedule : List (ι ⊕ δ)) (n : Nat)
    (hn : n < schedule.length) :
    S.Step (p.moment m schedule n).state (p.moment m schedule n).talk
      (p.moment m schedule (n + 1)).state (p.moment m schedule (n + 1)).talk
      (p.event m schedule n) := by
  induction schedule generalizing m n with
  | nil => exact absurd hn (Nat.not_lt_zero n)
  | cons move rest ih =>
    cases n with
    | zero => cases rest <;> exact p.next_step m move
    | succ n => exact ih (p.next m move).2 n (Nat.lt_of_succ_lt_succ hn)

def play (s : σ) (begins : ι → Dialogue Q A β) (schedule : List (ι ⊕ δ)) : Execution S begins where
  length := schedule.length
  state n := (p.moment ⟨s, begins⟩ schedule n).state
  talk n := (p.moment ⟨s, begins⟩ schedule n).talk
  event := p.event ⟨s, begins⟩ schedule
  talk_zero := by cases schedule <;> rfl
  step := p.moment_step ⟨s, begins⟩ schedule

end Player

end AtMostOnce
