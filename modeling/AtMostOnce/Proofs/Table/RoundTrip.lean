/-
A record comes back from its item, first as it was claimed and then as it was completed.

The claim writes a whole item.  The completion does not: it sends assignments as a text with
placeholders, and leaves out those that it has no values for, so what is read afterwards is
in part the claim's.  `Renders` says that an item shows all of a record.  The item of a claim
does (`renders_claimItem`), and whatever the completion assigns and leaves, the item then
renders the record that it makes of the claimed one (`Renders.complete`).
-/
import AtMostOnce.Proofs.Table.Items
import AtMostOnce.Proofs.Table.Updates

namespace AtMostOnce.Ledger.TableLayout

open AtMostOnce.Table

variable {l : TableLayout} {item : Item} {r c : Record}

/-! ### Whole records -/

/-- A record as a call claims it: without a result, and with a digest or none. -/
structure Begun (r : Record) : Prop where
  status : r.status = .inProgress
  expiry : Tellable r.expiry
  deadline : Tellable r.deadline
  data : r.data = none
  payloadHash : r.payloadHash ≠ some ""

/-- What an item shows of a record is all of it. -/
structure Renders (l : TableLayout) (item : Item) (r : Record) : Prop extends l.Shows item r where
  data : (Assoc.get? item l.settings.dataName).bind Attribute.text? = r.data
  payloadHash : (Assoc.get? item l.settings.payloadHashName).bind Attribute.text? = r.payloadHash
  someHash : r.payloadHash ≠ some ""

theorem Renders.read (h : l.Renders item r) : l.recordOf item = .ok r := by
  rw [h.recordOf_eq, h.data, h.payloadHash, Record.nonEmptyHash_eq h.someHash]

/-- A text that is set is the text that is read. -/
theorem text?_set (t : Option String) (old : Option Attribute) :
    ((t.map .text).or old).bind Attribute.text? = t.or (old.bind Attribute.text?) := by
  cases t <;> rfl

theorem renders_claimItem (hl : l.Distinct) (h : Begun r) : l.Renders (l.claimItem r) r where
  toShows := shows_claimItem hl h.status h.expiry h.deadline
  data := by
    rw [h.data, claimItem_eq, get?_assign_of_notMem _ _ (hl.dataName_claimed r),
      get?_keyItem_of_notMem l r.key hl.dataName_keyNames]
    rfl
  payloadHash := by
    rw [get?_claimItem hl (r.payloadHash.map .text) (by simp [claimed])]
    cases r.payloadHash <;> rfl
  someHash := h.payloadHash

theorem Renders.complete (hl : l.Distinct) (h : l.Renders item r) (expiry : Tellable c.expiry)
    (someHash : c.payloadHash ≠ some "") :
    l.Renders ((l.completeUpdate c).apply (l.completeBindings c) item) (completedBy r c) where
  toShows := h.toShows.complete hl expiry
  data := by
    rw [apply_completion, get?_assign_of_mem item (some (.text (c.data.getD "")))
      (hl.completed c) (by simp [completed])]
    rfl
  payloadHash := by
    rw [apply_completion, get?_assign_of_mem item (c.payloadHash.map .text) (hl.completed c)
      (by simp [completed]), text?_set, h.payloadHash]
    rfl
  someHash := by
    unfold completedBy
    cases hc : c.payloadHash with
    | none => exact h.someHash
    | some hash => rwa [hc] at someHash

/-! ### The text of a completion -/

theorem completeUpdate_plain (l : TableLayout) (c : Record) :
    (l.completeUpdate c).all Update.isPlain = true := by
  unfold completeUpdate completion
  cases c.expiry <;> cases c.payloadHash <;> simp <;> decide

theorem completeUpdate_bound (l : TableLayout) (c : Record) :
    (l.completeUpdate c).all (Update.isBound (l.completeBindings c)) = true := by
  unfold completeUpdate completeBindings completion
  cases c.expiry <;> cases c.payloadHash <;> rfl

/-- The table makes of a completion, as it is sent, what the update makes. -/
theorem applyText?_completion (l : TableLayout) (c : Record) (item : Item) :
    Update.applyText? (l.completeBindings c) (l.completeUpdate c).text item =
      some ((l.completeUpdate c).apply (l.completeBindings c) item) :=
  Update.applyText?_text (by simp [completeUpdate, completion]) (completeUpdate_plain l c)
    (completeUpdate_bound l c) item

/-- **A claimed record is read back from its item, and completed by a text of assignments it is
read back with what the completion gives and, where that gives nothing, with what the claim gave.**
-/
theorem item_round_trip (hl : l.Distinct) (begun : Begun r) :
    l.recordOf (l.claimItem r) = .ok r ∧
      ∀ c : Record, Tellable c.expiry → c.payloadHash ≠ some "" →
        ∃ item, Update.applyText? (l.completeBindings c) (l.completeUpdate c).text
            (l.claimItem r) = some item ∧
          l.recordOf item = .ok ⟨r.key, .completed, c.expiry.or r.expiry, r.deadline,
            some (c.data.getD ""), c.payloadHash.or r.payloadHash⟩ := by
  have hclaimed := renders_claimItem hl begun
  refine ⟨hclaimed.read, fun c expiry someHash => ⟨_, applyText?_completion l c _, ?_⟩⟩
  exact (hclaimed.complete hl expiry someHash).read

/-- A layout whose records share a partition. -/
def shared : TableLayout where
  settings :=
    { TableSettings.initial "calls" with
      keyName := "pk", sortName := some "sk", dataName := "result" }
  partition := "idempotency#orders"

/-- A claim from the first point in time to the last one. -/
def longClaim : Record :=
  ⟨⟨"orders#1"⟩, .inProgress, some Word.greatest, some Word.least, none, some "7f3a"⟩

/-- A completion that gives nothing. -/
def bareCompletion : Record := ⟨⟨"orders#1"⟩, .completed, none, none, none, none⟩

/-- A completion that gives nothing leaves the expiry, the deadline and the digest of the claim. -/
theorem item_round_trip_bare :
    shared.Distinct ∧ Begun longClaim ∧
      shared.recordOf (shared.claimItem longClaim) = .ok longClaim ∧
      ∃ item, Update.applyText? (shared.completeBindings bareCompletion)
          "SET #response_data = :response_data, #status = :status"
          (shared.claimItem longClaim) = some item ∧
        shared.recordOf item = .ok ⟨⟨"orders#1"⟩, .completed, some Word.greatest,
          some Word.least, some "", some "7f3a"⟩ := by
  have hl : shared.Distinct := by
    unfold Distinct
    decide
  have begun : Begun longClaim :=
    { status := rfl
      expiry := by rintro n ⟨⟩; decide
      deadline := by rintro n ⟨⟩; decide
      data := rfl
      payloadHash := by decide }
  obtain ⟨hclaimed, hcompleted⟩ := item_round_trip hl begun
  have htext : (shared.completeUpdate bareCompletion).text =
      "SET #response_data = :response_data, #status = :status" := rfl
  obtain ⟨item, happly, hread⟩ := hcompleted bareCompletion nofun nofun
  exact ⟨hl, begun, hclaimed, item, htext ▸ happly, hread⟩

end AtMostOnce.Ledger.TableLayout
