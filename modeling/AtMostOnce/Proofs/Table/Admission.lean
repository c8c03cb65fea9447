/-
The condition of a claim is the test of the ledger.

The condition is a text with placeholders, bound to names and values elsewhere, and it
mixes seconds with milliseconds.  On every item that claims and completions leave it holds
exactly if the item's record may be replaced.
-/
import AtMostOnce.Proofs.Table.Items

namespace AtMostOnce.Ledger.TableLayout

open AtMostOnce.Table

variable {l : TableLayout} {item : Item} {r : Record} {now : Millis}

theorem secondsOf_inRange (h : Word.InRange now) : Word.InRange (secondsOf now) := by
  unfold Word.InRange Word.least Word.greatest at h ⊢
  unfold secondsOf
  omega

theorem integer?_numberOf {n : Int} (h : Word.InRange n) : (numberOf n).integer? = some n :=
  (Word.ofSignedDigits?_decimal n).trans (if_pos h)

/-! ### Tests -/

theorem holds_less {b : Bindings} {name value : String} {t : Option Int} {n : Int}
    (hname : (b.attribute? item name).bind Attribute.integer? = t)
    (hvalue : (b.values.get? value).bind Attribute.integer? = some n) :
    Test.holds b item (.less name value) = t.any fun x => x < n := by
  simp only [Test.holds, hname, hvalue]
  cases t <;> rfl

theorem holds_equal {b : Bindings} {name value : String} {x y : Attribute}
    (hname : b.attribute? item name = some x) (hvalue : b.values.get? value = some y) :
    Test.holds b item (.equal name value) = decide (x = y) := by
  simp only [Test.holds, hname, hvalue]

section

variable (h : l.Shows item r) (hnow : Word.InRange now)

include h

theorem Shows.holds_missing : Test.holds (l.claimBindings now) item (.missing "#id") = false := by
  show (Assoc.get? item l.settings.keyName).isNone = false
  exact Option.isNone_eq_false_iff.mpr (Option.isSome_iff_ne_none.mpr h.id)

theorem Shows.holds_status :
    Test.holds (l.claimBindings now) item (.equal "#status" ":inprogress") =
      decide (r.status = .inProgress) := by
  have hname : (l.claimBindings now).attribute? item "#status" = some (.text r.status.name) :=
    h.status
  rw [holds_equal hname rfl]
  cases r.status <;> rfl

/-- A deadline that has passed is there. -/
theorem Shows.holds_present (hover : r.isOverdue now = true) :
    Test.holds (l.claimBindings now) item (.present "#in_progress_expiry") = true := by
  show (Assoc.get? item l.settings.deadlineName).isSome = true
  have hdeadline := h.deadline
  cases hget : Assoc.get? item l.settings.deadlineName with
  | some a => rfl
  | none =>
    rw [hget] at hdeadline
    unfold Record.isOverdue at hover
    rw [← hdeadline] at hover
    cases hover

include hnow

theorem Shows.holds_expiry :
    Test.holds (l.claimBindings now) item (.less "#expiry" ":now") =
      r.isExpired (secondsOf now) := by
  have hname : ((l.claimBindings now).attribute? item "#expiry").bind Attribute.integer? =
      r.expiry := h.expiry
  have hvalue : ((l.claimBindings now).values.get? ":now").bind Attribute.integer? =
      some (secondsOf now) := integer?_numberOf (secondsOf_inRange hnow)
  rw [holds_less hname hvalue]
  unfold Record.isExpired
  cases r.expiry <;> rfl

theorem Shows.holds_deadline :
    Test.holds (l.claimBindings now) item (.less "#in_progress_expiry" ":now_in_millis") =
      r.isOverdue now := by
  have hname : ((l.claimBindings now).attribute? item "#in_progress_expiry").bind
      Attribute.integer? = r.deadline := h.deadline
  have hvalue : ((l.claimBindings now).values.get? ":now_in_millis").bind Attribute.integer? =
      some now := integer?_numberOf hnow
  rw [holds_less hname hvalue]
  unfold Record.isOverdue
  cases r.deadline <;> rfl

/-- The condition holds on an item exactly if the record that it shows may be replaced. -/
theorem Shows.admits :
    claimCondition.holds (l.claimBindings now) item = r.isReplaceable now := by
  have hover : (Test.holds (l.claimBindings now) item (.present "#in_progress_expiry") &&
      r.isOverdue now) = r.isOverdue now := by
    cases ho : r.isOverdue now with
    | false => exact Bool.and_false _
    | true => rw [h.holds_present ho, Bool.and_true]
  unfold Condition.holds claimCondition Record.isReplaceable
  simp only [List.any_cons, List.any_nil, List.all_cons, List.all_nil, Bool.or_false, Bool.and_true]
  rw [h.holds_missing, h.holds_expiry hnow, h.holds_status, h.holds_deadline hnow, hover,
    Bool.false_or]

end

/-- The record that is read from an item that shows one has its status, expiry and deadline. -/
theorem Shows.read (h : l.Shows item r) :
    ∃ data hash, l.recordOf item = .ok ⟨r.key, r.status, r.expiry, r.deadline, data, hash⟩ :=
  ⟨_, _, h.recordOf_eq⟩

/-- **The condition of a claim, as it is sent, lets the claim pass exactly where nothing is stored
or what is stored may be replaced**, and what is read of it may be replaced exactly then too. -/
theorem claim_admitted (hl : l.Distinct) (hnow : Word.InRange now) :
    claimCondition.text =
        "attribute_not_exists(#id) OR #expiry < :now OR (#status = :inprogress AND " ++
          "attribute_exists(#in_progress_expiry) AND #in_progress_expiry < :now_in_millis)" ∧
      claimCondition.holds (l.claimBindings now) [] = true ∧
      ∀ item r, Stored l item r →
        claimCondition.holds (l.claimBindings now) item = r.isReplaceable now ∧
        ∃ r', l.recordOf item = .ok r' ∧ r'.isReplaceable now = r.isReplaceable now := by
  refine ⟨rfl, rfl, fun item r hstored => ?_⟩
  have hshows := hstored.shows hl
  obtain ⟨data, hash, hread⟩ := hshows.read
  exact ⟨hshows.admits hnow, _, hread, rfl⟩

/-! ### A deadline that is left over -/

/-- A layout with a sort attribute. -/
def sorted : TableLayout :=
  ⟨{ TableSettings.initial "calls" with sortName := some "sort" }, "idempotency#orders"⟩

/-- A record that is in progress until five seconds before the epoch. -/
def begun : Record := ⟨⟨"orders#1"⟩, .inProgress, some (-3), some (-5000), none, some "hash"⟩

/-- The record that completes it. -/
def ended : Record := ⟨⟨"orders#1"⟩, .completed, some (-2), none, some "7", some "hash"⟩

/-- Four seconds before the epoch the record in progress may be replaced.  Once it is completed it
may not, though its deadline is still there. -/
theorem leftover_admitted :
    sorted.Distinct ∧ Word.InRange (-4000) ∧
      Stored sorted (sorted.claimItem begun) begun ∧
      claimCondition.holds (sorted.claimBindings (-4000)) (sorted.claimItem begun) = true ∧
      Stored sorted
        ((sorted.completeUpdate ended).apply (sorted.completeBindings ended)
          (sorted.claimItem begun)) (completedBy begun ended) ∧
      claimCondition.holds (sorted.claimBindings (-4000))
        ((sorted.completeUpdate ended).apply (sorted.completeBindings ended)
          (sorted.claimItem begun)) = false ∧
      (completedBy begun ended).deadline = some (-5000) := by
  have hl : sorted.Distinct := by
    unfold Distinct
    decide
  have hnow : Word.InRange (-4000) := by decide
  have hbegun : Stored sorted (sorted.claimItem begun) begun :=
    .claim begun rfl (by rintro n ⟨⟩; decide) (by rintro n ⟨⟩; decide)
  have hended := Stored.complete (sorted.claimItem begun) begun ended hbegun rfl
    (by rintro n ⟨⟩; decide)
  obtain ⟨-, -, hadmitted⟩ := claim_admitted hl hnow
  exact ⟨hl, hnow, hbegun, (hadmitted _ _ hbegun).1, hended, (hadmitted _ _ hended).1, rfl⟩

end AtMostOnce.Ledger.TableLayout
