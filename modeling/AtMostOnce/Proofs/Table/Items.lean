/-
The items of a table's records.

A claim puts an item and a completion sets some of its attributes.  Both are assignments
to attributes of different names (`claimItem_eq`, `apply_completion`), and what a
completion does not assign stays, so a completed item may still have the deadline of its
claim.  `Shows` says what the attributes of an item tell of a record, and `Stored.shows`
that every item that claims and completions leave shows its record.
-/
import AtMostOnce.Ledger.Table
import AtMostOnce.Proofs.Decimal

namespace AtMostOnce

namespace Table

/-! ### Assignments -/

/-- The item with an attribute set, or left as it is where there is nothing to set. -/
def set (item : Item) (name : String) : Option Attribute → Item
  | some value => item.insert name value
  | none => item

/-- The item with several attributes set, one after the other. -/
def assign (item : Item) (as : List (String × Option Attribute)) : Item :=
  as.foldl (fun item a => set item a.1 a.2) item

theorem get?_set (item : Item) (name name' : String) (value : Option Attribute) :
    Assoc.get? (set item name value) name' =
      if name = name' then value.or (Assoc.get? item name') else Assoc.get? item name' := by
  cases value with
  | none =>
    rw [Option.none_or, ite_self]
    rfl
  | some v => exact Assoc.get?_insert item name name' v

theorem get?_assign_of_notMem (item : Item) (as : List (String × Option Attribute)) {name : String}
    (h : name ∉ as.map Prod.fst) : Assoc.get? (assign item as) name = Assoc.get? item name := by
  induction as generalizing item with
  | nil => rfl
  | cons a as ih =>
    rw [List.map_cons, List.mem_cons, not_or] at h
    show Assoc.get? (assign (set item a.1 a.2) as) name = _
    rw [ih _ h.2, get?_set, if_neg (Ne.symm h.1)]

/-- An assignment to one of several different names sets its attribute. -/
theorem get?_assign_of_mem (item : Item) {as : List (String × Option Attribute)} {name : String}
    (value : Option Attribute) (distinct : (as.map Prod.fst).Nodup) (h : (name, value) ∈ as) :
    Assoc.get? (assign item as) name = value.or (Assoc.get? item name) := by
  induction as generalizing item with
  | nil => cases h
  | cons a as ih =>
    obtain ⟨hnot, hrest⟩ := List.nodup_cons.mp distinct
    show Assoc.get? (assign (set item a.1 a.2) as) name = _
    rcases List.mem_cons.mp h with rfl | hmem
    · rw [get?_assign_of_notMem _ as hnot, get?_set, if_pos rfl]
    · have hne : a.1 ≠ name := fun hname => hnot (hname ▸ List.mem_map_of_mem hmem)
      rw [ih _ hrest hmem, get?_set, if_neg hne]

end Table

namespace Ledger.TableLayout

open AtMostOnce.Table

/-- The attributes that hold a key. -/
def keyNames (l : TableLayout) : List String := l.settings.keyName :: l.settings.sortName.toList

/-- The attributes of a layout have different names. -/
def Distinct (l : TableLayout) : Prop :=
  (l.keyNames ++ [l.settings.expiryName, l.settings.deadlineName, l.settings.statusName,
    l.settings.dataName, l.settings.payloadHashName]).Nodup

/-- What a claim assigns. -/
def claimed (l : TableLayout) (r : Record) : List (String × Option Attribute) :=
  [(l.settings.statusName, some (.text Status.inProgress.name)),
   (l.settings.expiryName, r.expiry.map numberOf),
   (l.settings.deadlineName, r.deadline.map numberOf),
   (l.settings.payloadHashName, r.payloadHash.map .text)]

/-- What a completion assigns. -/
def completed (l : TableLayout) (c : Record) : List (String × Option Attribute) :=
  [(l.settings.dataName, some (.text (c.data.getD ""))),
   (l.settings.statusName, some (.text Status.completed.name)),
   (l.settings.expiryName, c.expiry.map numberOf),
   (l.settings.payloadHashName, c.payloadHash.map .text)]

theorem claimItem_eq (l : TableLayout) (r : Record) :
    l.claimItem r = assign (l.keyItem r.key) (l.claimed r) := by
  unfold claimItem claimed
  cases r.expiry <;> cases r.deadline <;> cases r.payloadHash <;> rfl

theorem apply_completion (l : TableLayout) (c : Record) (item : Item) :
    (l.completeUpdate c).apply (l.completeBindings c) item = assign item (l.completed c) := by
  unfold completeUpdate completeBindings completion completed
  cases c.expiry <;> cases c.payloadHash <;> rfl

section

variable {l : TableLayout} (h : l.Distinct) (r : Record)

include h

theorem Distinct.claimed : ((l.claimed r).map Prod.fst).Nodup := by
  have hrest := (List.nodup_append.mp h).2.1
  unfold TableLayout.claimed
  grind

theorem Distinct.completed : ((l.completed r).map Prod.fst).Nodup := by
  have hrest := (List.nodup_append.mp h).2.1
  unfold TableLayout.completed
  grind

theorem Distinct.keyNames_claimed {name : String} (hname : name ∈ l.keyNames) :
    name ∉ (l.claimed r).map Prod.fst := by
  have hapart := (List.nodup_append.mp h).2.2 name hname
  unfold TableLayout.claimed
  grind

theorem Distinct.keyNames_completed {name : String} (hname : name ∈ l.keyNames) :
    name ∉ (l.completed r).map Prod.fst := by
  have hapart := (List.nodup_append.mp h).2.2 name hname
  unfold TableLayout.completed
  grind

theorem Distinct.deadlineName_completed :
    l.settings.deadlineName ∉ (l.completed r).map Prod.fst := by
  have hrest := (List.nodup_append.mp h).2.1
  unfold TableLayout.completed
  grind

theorem Distinct.dataName_claimed : l.settings.dataName ∉ (l.claimed r).map Prod.fst := by
  have hrest := (List.nodup_append.mp h).2.1
  unfold TableLayout.claimed
  grind

omit r in
theorem Distinct.dataName_keyNames : l.settings.dataName ∉ l.keyNames :=
  fun hkey => (List.nodup_append.mp h).2.2 _ hkey _ (by simp) rfl

theorem Distinct.claimed_keyNames {name : String} {value : Option Attribute}
    (hname : (name, value) ∈ l.claimed r) : name ∉ l.keyNames :=
  fun hkey => h.keyNames_claimed r hkey (List.mem_map_of_mem hname)

end

/-! ### Keys -/

section

variable (l : TableLayout) (key : Key)

theorem keyHolder_mem : l.keyHolder ∈ l.keyNames := by
  unfold keyHolder keyNames
  cases l.settings.sortName with
  | none => exact List.mem_cons_self
  | some sort => exact List.mem_cons_of_mem _ List.mem_cons_self

theorem get?_keyItem_of_notMem {name : String} (h : name ∉ l.keyNames) :
    Assoc.get? (l.keyItem key) name = none := by
  unfold keyNames at h
  unfold keyItem
  cases hsort : l.settings.sortName with
  | none =>
    rw [hsort] at h
    exact Assoc.get?_eq_none h
  | some sort =>
    rw [hsort] at h
    exact Assoc.get?_insertAll_of_notMem [] _ h

theorem get?_keyItem_keyHolder :
    Assoc.get? (l.keyItem key) l.keyHolder = some (.text key.text) := by
  unfold keyItem keyHolder
  cases l.settings.sortName with
  | none => exact if_pos rfl
  | some sort => exact (Assoc.get?_insert _ sort sort _).trans (if_pos rfl)

theorem get?_keyItem_keyName : Assoc.get? (l.keyItem key) l.settings.keyName ≠ none := by
  unfold keyItem
  cases l.settings.sortName with
  | none =>
    show (if _ then _ else _) ≠ none
    rw [if_pos rfl]
    nofun
  | some sort =>
    show Assoc.get? (Assoc.insert (Assoc.insert [] _ _) sort _) _ ≠ none
    rw [Assoc.get?_insert, Assoc.get?_insert, if_pos rfl]
    split <;> nofun

end

/-! ### Records -/

/-- What an item shows of a record. -/
structure Shows (l : TableLayout) (item : Item) (r : Record) : Prop where
  id : Assoc.get? item l.settings.keyName ≠ none
  key : Assoc.get? item l.keyHolder = some (.text r.key.text)
  status : Assoc.get? item l.settings.statusName = some (.text r.status.name)
  expiry : (Assoc.get? item l.settings.expiryName).bind Attribute.integer? = r.expiry
  deadline : (Assoc.get? item l.settings.deadlineName).bind Attribute.integer? = r.deadline

/-- What an item shows of a record is read of it; the result and the digest are as they stand. -/
theorem Shows.recordOf_eq {l : TableLayout} {item : Item} {r : Record} (h : l.Shows item r) :
    l.recordOf item = .ok ⟨r.key, r.status, r.expiry, r.deadline,
      (Assoc.get? item l.settings.dataName).bind Attribute.text?,
      Record.nonEmptyHash ((Assoc.get? item l.settings.payloadHashName).bind Attribute.text?)⟩ := by
  have hkey : (Assoc.get? item l.keyHolder).bind Attribute.text? = some r.key.text := by
    rw [h.key]
    rfl
  have hstatus : ((Assoc.get? item l.settings.statusName).bind Attribute.text?).getD "" =
      r.status.name := by
    rw [h.status]
    rfl
  unfold recordOf
  simp only [hkey, hstatus, Status.parse_name, h.expiry, h.deadline]

/-- A point in time that a table can tell, or none. -/
def Tellable (t : Option Int) : Prop := ∀ n, t = some n → Word.InRange n

/-- A number that is set is the number that is read. -/
theorem integer?_set {t : Option Int} (ht : Tellable t) (old : Option Attribute) :
    ((t.map numberOf).or old).bind Attribute.integer? = t.or (old.bind Attribute.integer?) := by
  cases t with
  | none => rfl
  | some n =>
    show (numberOf n).integer? = some n
    exact (Word.ofSignedDigits?_decimal n).trans (if_pos (ht n rfl))

/-- What becomes of a record when another one completes it. -/
def completedBy (r c : Record) : Record :=
  ⟨r.key, .completed, c.expiry.or r.expiry, r.deadline, some (c.data.getD ""),
    c.payloadHash.or r.payloadHash⟩

/-- The items that claims put and completions update, with their records. -/
inductive Stored (l : TableLayout) : Item → Record → Prop
  | claim (r : Record) (inProgress : r.status = .inProgress) (expiry : Tellable r.expiry)
    (deadline : Tellable r.deadline) : Stored l (l.claimItem r) r
  | complete (item : Item) (r c : Record) (h : Stored l item r) (key : c.key = r.key)
    (expiry : Tellable c.expiry) :
    Stored l ((l.completeUpdate c).apply (l.completeBindings c) item) (completedBy r c)

section

variable {l : TableLayout} (hl : l.Distinct)

include hl

theorem get?_claimItem {r : Record} {name : String} (value : Option Attribute)
    (h : (name, value) ∈ l.claimed r) : Assoc.get? (l.claimItem r) name = value := by
  rw [claimItem_eq, get?_assign_of_mem _ value (hl.claimed r) h,
    get?_keyItem_of_notMem l r.key (hl.claimed_keyNames r h), Option.or_none]

theorem integer?_claimItem {r : Record} {name : String} {t : Option Int} (ht : Tellable t)
    (h : (name, t.map numberOf) ∈ l.claimed r) :
    (Assoc.get? (l.claimItem r) name).bind Attribute.integer? = t := by
  rw [get?_claimItem hl _ h]
  have hread := integer?_set ht none
  rwa [Option.or_none, Option.bind_none, Option.or_none] at hread

theorem shows_claimItem {r : Record} (inProgress : r.status = .inProgress)
    (expiry : Tellable r.expiry) (deadline : Tellable r.deadline) :
    l.Shows (l.claimItem r) r where
  id := by
    rw [claimItem_eq, get?_assign_of_notMem _ _ (hl.keyNames_claimed r List.mem_cons_self)]
    exact get?_keyItem_keyName l r.key
  key := by
    rw [claimItem_eq, get?_assign_of_notMem _ _ (hl.keyNames_claimed r l.keyHolder_mem)]
    exact get?_keyItem_keyHolder l r.key
  status := by
    rw [inProgress]
    exact get?_claimItem hl _ (by simp [claimed])
  expiry := integer?_claimItem hl expiry (by simp [claimed])
  deadline := integer?_claimItem hl deadline (by simp [claimed])

theorem Shows.complete {item : Item} {r c : Record} (h : l.Shows item r)
    (expiry : Tellable c.expiry) :
    l.Shows ((l.completeUpdate c).apply (l.completeBindings c) item) (completedBy r c) where
  id := by
    rw [apply_completion, get?_assign_of_notMem _ _ (hl.keyNames_completed c List.mem_cons_self)]
    exact h.id
  key := by
    rw [apply_completion, get?_assign_of_notMem _ _ (hl.keyNames_completed c l.keyHolder_mem)]
    exact h.key
  status := by
    rw [apply_completion, get?_assign_of_mem item (some (.text Status.completed.name))
      (hl.completed c) (by simp [completed])]
    rfl
  expiry := by
    rw [apply_completion, get?_assign_of_mem item (c.expiry.map numberOf) (hl.completed c)
      (by simp [completed]), integer?_set expiry, h.expiry]
    rfl
  deadline := by
    rw [apply_completion, get?_assign_of_notMem _ _ (hl.deadlineName_completed c)]
    exact h.deadline

theorem Stored.shows {item : Item} {r : Record} (h : Stored l item r) : l.Shows item r := by
  induction h with
  | claim r inProgress expiry deadline => exact shows_claimItem hl inProgress expiry deadline
  | complete item r c h key expiry ih => exact ih.complete hl expiry

end

end Ledger.TableLayout

end AtMostOnce
