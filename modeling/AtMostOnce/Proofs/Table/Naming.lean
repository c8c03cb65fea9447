/-
Layouts under which a claim can be read.

A layout names up to seven attributes, and all that is checked is that the two of a key
differ.  A claim puts its attributes one after the other over those of its key, and what is
put last under a name is read, if it is of the type that is looked for.  So some equal names
do no harm: the result may share the name of a number, for a claim has no result and a number
is no text; and the attribute of the partition may be overwritten, for it is not read.
`Apart` says which names have to differ, and no more (`readable_iff`).
-/
import AtMostOnce.Proofs.Fields.Naming
import AtMostOnce.Proofs.Table.RoundTrip

namespace AtMostOnce.Ledger.TableLayout

open AtMostOnce.Table

variable {l : TableLayout} {r : Record} {key : Key} {name : String}

/-! ### What a claim's item holds -/

/-- The attribute that takes the partition, if there is one beside the attribute of the key. -/
def partitionName? (l : TableLayout) : Option String :=
  l.settings.sortName.map fun _ => l.settings.keyName

theorem get?_keyItem (l : TableLayout) (key : Key) (name : String) :
    Assoc.get? (l.keyItem key) name =
      if l.keyHolder = name then some (.text key.text)
      else if l.partitionName? = some name then some (.text l.partition) else none := by
  unfold keyItem keyHolder partitionName?
  cases l.settings.sortName with
  | none => simp [Assoc.get?]
  | some sort => simp [Assoc.insertAll, Assoc.get?_insert]

/-- What is read under a name of a claim: of what it has put there, the last. -/
theorem get?_claimItem_eq (l : TableLayout) (r : Record) (name : String) :
    Assoc.get? (l.claimItem r) name =
      (if l.settings.payloadHashName = name then r.payloadHash.map .text else none).or
        ((if l.settings.deadlineName = name then r.deadline.map numberOf else none).or
          ((if l.settings.expiryName = name then r.expiry.map numberOf else none).or
            (if l.settings.statusName = name then some (.text Status.inProgress.name)
              else Assoc.get? (l.keyItem r.key) name))) := by
  rw [claimItem_eq, claimed]
  simp only [assign, List.foldl_cons, List.foldl_nil, get?_set]
  grind

theorem parse_eq_ok {text : Option String} {status : Status} :
    Status.parse (text.getD "") = .ok status ↔ text = some status.name := by
  constructor
  · intro h
    unfold Status.parse at h
    split at h
    · rename_i hfound
      cases h
      have hname : status.name = text.getD "" := by simpa using List.find?_some hfound
      cases text with
      | none => cases status <;> exact absurd hname (by decide)
      | some s => exact congrArg some hname.symm
    · cases h
  · rintro rfl
    exact Status.parse_name status

/-- A record is read of an item exactly if every part of it is. -/
theorem recordOf_ok_iff {item : Item} :
    l.recordOf item = .ok r ↔
      (Assoc.get? item l.keyHolder).bind Attribute.text? = some r.key.text ∧
      (Assoc.get? item l.settings.statusName).bind Attribute.text? = some r.status.name ∧
      (Assoc.get? item l.settings.expiryName).bind Attribute.integer? = r.expiry ∧
      (Assoc.get? item l.settings.deadlineName).bind Attribute.integer? = r.deadline ∧
      (Assoc.get? item l.settings.dataName).bind Attribute.text? = r.data ∧
      Record.nonEmptyHash ((Assoc.get? item l.settings.payloadHashName).bind Attribute.text?) =
        r.payloadHash := by
  obtain ⟨⟨text⟩, status, expiry, deadline, data, hash⟩ := r
  unfold recordOf
  dsimp only
  rw [← parse_eq_ok]
  cases (Assoc.get? item l.keyHolder).bind Attribute.text? with
  | none => simp
  | some k =>
    cases Status.parse (((Assoc.get? item l.settings.statusName).bind Attribute.text?).getD "") with
    | error err => simp
    | ok st => simp

/-! ### Equal names -/

/-- The names of what is read of a claim: of the key and of what the claim writes. -/
def claimNames (l : TableLayout) : List String :=
  [l.keyHolder, l.settings.statusName, l.settings.expiryName, l.settings.deadlineName,
    l.settings.payloadHashName]

/-- The names of a layout that have to differ. -/
structure Apart (l : TableLayout) : Prop where
  claim : l.claimNames.Nodup
  /-- The result is read as text where a claim has none. -/
  data : l.settings.dataName ∉
    [l.keyHolder, l.settings.statusName, l.settings.payloadHashName] ++ l.partitionName?.toList
  /-- A partition read as the digest has to be the empty one, which stands for none. -/
  partition : l.partitionName? = some l.settings.payloadHashName → l.partition = ""

/-- No partition is read as a number. -/
theorem integer?_partition (l : TableLayout) (name : String) :
    (if l.partitionName? = some name then some (Attribute.text l.partition) else none).bind
      Attribute.integer? = none := by
  split <;> rfl

/-- **Under names that differ where they have to, a claim is read as it was written.** -/
theorem Apart.read (h : l.Apart) (begun : Begun r) : l.recordOf (l.claimItem r) = .ok r := by
  obtain ⟨⟨hKS, hKE, hKD, hKV⟩, ⟨hSE, hSD, hSV⟩, ⟨hED, hEV⟩, hDV⟩ :
      (l.keyHolder ≠ l.settings.statusName ∧ l.keyHolder ≠ l.settings.expiryName ∧
        l.keyHolder ≠ l.settings.deadlineName ∧ l.keyHolder ≠ l.settings.payloadHashName) ∧
      (l.settings.statusName ≠ l.settings.expiryName ∧
        l.settings.statusName ≠ l.settings.deadlineName ∧
        l.settings.statusName ≠ l.settings.payloadHashName) ∧
      (l.settings.expiryName ≠ l.settings.deadlineName ∧
        l.settings.expiryName ≠ l.settings.payloadHashName) ∧
      l.settings.deadlineName ≠ l.settings.payloadHashName := by
    simpa [claimNames] using h.claim
  obtain ⟨hAK, hAS, hAV, hAP⟩ : l.settings.dataName ≠ l.keyHolder ∧
      l.settings.dataName ≠ l.settings.statusName ∧
      l.settings.dataName ≠ l.settings.payloadHashName ∧
      l.partitionName? ≠ some l.settings.dataName := by
    simpa using h.data
  refine recordOf_ok_iff.mpr ⟨?_, ?_, ?_, ?_, ?_, ?_⟩
  · rw [get?_claimItem_eq, if_neg hKV.symm, if_neg hKD.symm, if_neg hKE.symm, if_neg hKS.symm,
      get?_keyItem, if_pos rfl]
    rfl
  · rw [get?_claimItem_eq, if_neg hSV.symm, if_neg hSD.symm, if_neg hSE.symm, if_pos rfl,
      begun.status]
    rfl
  · rw [get?_claimItem_eq, if_neg hEV.symm, if_neg hED.symm, if_pos rfl, if_neg hSE, Option.none_or,
      Option.none_or, integer?_set begun.expiry, get?_keyItem, if_neg hKE, integer?_partition,
      Option.or_none]
  · rw [get?_claimItem_eq, if_neg hDV.symm, if_pos rfl, if_neg hED, if_neg hSD, Option.none_or,
      Option.none_or, integer?_set begun.deadline, get?_keyItem, if_neg hKD, integer?_partition,
      Option.or_none]
  · rw [get?_claimItem_eq, if_neg hAV.symm, if_neg hAS.symm, get?_keyItem, if_neg hAK.symm,
      if_neg hAP, Option.none_or, Option.or_none, begun.data]
    -- only a number can be there
    split <;> cases r.deadline <;> split <;> cases r.expiry <;> rfl
  · rw [get?_claimItem_eq, if_pos rfl, if_neg hDV, if_neg hEV, if_neg hSV, get?_keyItem, if_neg hKV,
      Option.none_or, Option.none_or, text?_set]
    cases hhash : r.payloadHash with
    | some hash =>
      rw [Option.some_or]
      exact Record.nonEmptyHash_eq (hhash ▸ begun.payloadHash)
    | none =>
      split
      · rename_i hpartition
        rw [h.partition hpartition]
        rfl
      · rfl

/-- A record of a claim, with an expiry, a deadline and a digest as given. -/
def sample (expiry deadline : Option Int) (hash : Option String) : Record :=
  ⟨⟨"order"⟩, .inProgress, expiry, deadline, none, hash⟩

section

variable {β : Type} {p : Prop} [Decidable p] {a : Attribute} {rest : Option Attribute}
  {read : Attribute → Option β} {seen : Option β}

/-- What is there and would be read otherwise is not there. -/
theorem not_of_read (h : (if p then some a else rest).bind read = seen) (hne : read a ≠ seen) :
    ¬ p := by
  intro hp
  rw [if_pos hp] at h
  exact hne h

theorem not_of_put (h : ((if p then some a else none).or rest).bind read = seen)
    (hne : read a ≠ seen) : ¬ p := by
  intro hp
  rw [if_pos hp] at h
  exact hne h

end

/-- Two equal names that have to differ leave a claim that is not read as it was written. -/
theorem apart_of_read (h : ∀ r, Begun r → l.recordOf (l.claimItem r) = .ok r) : l.Apart := by
  have sampled : ∀ expiry deadline hash, Tellable expiry → Tellable deadline → hash ≠ some "" →
      l.recordOf (l.claimItem (sample expiry deadline hash)) =
        .ok (sample expiry deadline hash) :=
    fun expiry deadline hash he hd hh => h _ ⟨rfl, he, hd, rfl, hh⟩
  have unset : Tellable none := by rintro n ⟨⟩
  have zero : Tellable (some 0) := by rintro n ⟨⟩; decide
  -- what is read of four claims, part by part
  have bare := recordOf_ok_iff.mp (sampled none none none unset unset (by decide))
  have expiring := recordOf_ok_iff.mp (sampled (some 0) none none zero unset (by decide))
  have limited := recordOf_ok_iff.mp (sampled none (some 0) none unset zero (by decide))
  have full := recordOf_ok_iff.mp (sampled (some 0) (some 0) (some "7f3a") zero zero (by decide))
  simp only [get?_claimItem_eq, get?_keyItem, sample, Option.map_none, Option.map_some, ite_self,
    Option.none_or] at bare expiring limited full
  obtain ⟨key, -, -, -, data, hash⟩ := bare
  have hSK : l.settings.statusName ≠ l.keyHolder := not_of_read key (by decide)
  have hSA : l.settings.statusName ≠ l.settings.dataName := not_of_read data (by decide)
  rw [if_neg hSA] at data
  have hKA : l.keyHolder ≠ l.settings.dataName := not_of_read data (by decide)
  rw [if_neg hKA] at data
  have hPA : l.partitionName? ≠ some l.settings.dataName := not_of_read data (by rintro ⟨⟩)
  have hSV : l.settings.statusName ≠ l.settings.payloadHashName := by
    intro heq
    rw [if_pos heq] at hash
    cases hash
  have hKV : l.keyHolder ≠ l.settings.payloadHashName := by
    intro heq
    rw [if_neg hSV, if_pos heq] at hash
    cases hash
  obtain ⟨key, status, -, -, -, -⟩ := expiring
  have hEK : l.settings.expiryName ≠ l.keyHolder := not_of_put key (by rintro ⟨⟩)
  have hES : l.settings.expiryName ≠ l.settings.statusName := not_of_put status (by rintro ⟨⟩)
  obtain ⟨key, status, expiry, -, -, -⟩ := limited
  have hDK : l.settings.deadlineName ≠ l.keyHolder := not_of_put key (by rintro ⟨⟩)
  have hDS : l.settings.deadlineName ≠ l.settings.statusName := not_of_put status (by rintro ⟨⟩)
  have hDE : l.settings.deadlineName ≠ l.settings.expiryName := not_of_put expiry (by rintro ⟨⟩)
  obtain ⟨-, -, expiry, deadline, data, -⟩ := full
  have hVE : l.settings.payloadHashName ≠ l.settings.expiryName := not_of_put expiry (by rintro ⟨⟩)
  have hVD : l.settings.payloadHashName ≠ l.settings.deadlineName :=
    not_of_put deadline (by rintro ⟨⟩)
  have hVA : l.settings.payloadHashName ≠ l.settings.dataName := not_of_put data (by rintro ⟨⟩)
  refine ⟨?_, ?_, fun heq => ?_⟩
  · simp [claimNames, hSK.symm, hEK.symm, hDK.symm, hKV, hES.symm, hDS.symm, hSV, hDE.symm,
      hVE.symm, hVD.symm]
  · simp [hKA.symm, hSA.symm, hVA.symm, hPA]
  · rw [if_neg hSV, if_neg hKV, if_pos heq] at hash
    by_contra hfilled
    rw [Option.bind_some, Attribute.text?, Record.nonEmptyHash_eq (by simpa using hfilled)] at hash
    cases hash

/-- A claim is read as it was written, whatever it is, exactly if the names of the layout differ
where they have to. -/
theorem readable_iff (l : TableLayout) :
    (∀ r, Begun r → l.recordOf (l.claimItem r) = .ok r) ↔ l.Apart :=
  ⟨apart_of_read, fun h _ begun => h.read begun⟩

end TableLayout

/-! ### Accepted names -/

/-- **Which of the names that are accepted keep a claim readable.**  Over a server of fields a
claim that was granted keeps the next one out, as long as the server has its record, exactly if the
names that it writes are different.  Over a table it is read as it was written exactly if the names
of the layout differ where they have to. -/
theorem accepted_names_readable_iff (asked : FieldNames) (decodes : Bool) (env : Environment)
    (settings : TableSettings) :
    (∀ names, Fields.build asked decodes = .ok names →
      ((∀ now r r' token token', Word.InRange now → Fields.Current now r → r'.key = r.key →
          (Fields.alone now token (Fields.claim names r) .empty).1 = .ok .created ∧
            ((Fields.alone now token' (Fields.claim names r')
                (Fields.alone now token (Fields.claim names r) .empty).2).1 = .ok .conflict ↔
              Fields.EndsAhead now r)) ↔
        (Fields.claimNames names).Nodup)) ∧
      ∀ l, TableLayout.build env settings = .ok l →
        ((∀ r, TableLayout.Begun r → l.recordOf (l.claimItem r) = .ok r) ↔ l.Apart) :=
  ⟨fun names _ => Fields.second_claims_refused_iff names, fun l _ => l.readable_iff⟩

/-- A claim of the order, with a deadline and a digest. -/
def digestedOrder : Record :=
  ⟨⟨"order"⟩, .inProgress, some 3600, some 100000, none, some "abc"⟩

theorem digestedOrder_current : Fields.Current 0 digestedOrder :=
  ⟨rfl, ⟨3600, rfl, by decide⟩, by rintro d ⟨⟩; decide⟩

theorem digestedOrder_begun : TableLayout.Begun digestedOrder :=
  ⟨rfl, by rintro n ⟨⟩; decide, by rintro n ⟨⟩; decide, rfl, by decide⟩

/-- A table whose results share the attribute of the expiry. -/
def thrifty : TableSettings := { TableSettings.initial "calls" with dataName := "expiration" }

/-- The names that hold when nothing is said are different, and a result may share the attribute of
the expiry. -/
theorem accepted_names_readable :
    (Fields.alone 0 "b" (Fields.claim .initial digestedOrder)
        (Fields.alone 0 "a" (Fields.claim .initial digestedOrder) .empty).2).1 = .ok .conflict ∧
      TableLayout.recordOf ⟨thrifty, "idempotency#"⟩
        (TableLayout.claimItem ⟨thrifty, "idempotency#"⟩ digestedOrder) = .ok digestedOrder := by
  have apart : TableLayout.Apart ⟨thrifty, "idempotency#"⟩ := ⟨by decide, by decide, nofun⟩
  obtain ⟨fields, table⟩ := accepted_names_readable_iff .initial true ⟨none, none⟩ thrifty
  have refused := (fields .initial rfl).mpr (by decide)
  have read := (table _ rfl).mpr apart
  exact ⟨(refused 0 _ digestedOrder "a" "b" (by decide) digestedOrder_current rfl).2.mpr
    ⟨3600, rfl, by decide⟩, read _ digestedOrder_begun⟩

/-- Names with one for the status and the digest are accepted by both ledgers.  The one grants a key
twice then, and the other cannot read the claim that it has put. -/
theorem equal_names_accepted :
    let names : FieldNames := { FieldNames.initial with status := "state", payloadHash := "state" }
    let settings : TableSettings :=
      { TableSettings.initial "calls" with statusName := "state", payloadHashName := "state" }
    let l : TableLayout := ⟨settings, "idempotency#"⟩
    Fields.Current 0 digestedOrder ∧ TableLayout.Begun digestedOrder ∧
      Fields.build names true = .ok names ∧
      (Fields.alone 0 "a" (Fields.claim names digestedOrder) .empty).1 = .ok .created ∧
      (Fields.alone 0 "b" (Fields.claim names digestedOrder)
        (Fields.alone 0 "a" (Fields.claim names digestedOrder) .empty).2).1 = .ok .created ∧
      TableLayout.build ⟨none, none⟩ settings = .ok l ∧
      l.recordOf (l.claimItem digestedOrder) = .error (.invalidStatus "abc") :=
  ⟨digestedOrder_current, digestedOrder_begun, rfl, rfl, rfl, rfl, rfl⟩

end AtMostOnce.Ledger
