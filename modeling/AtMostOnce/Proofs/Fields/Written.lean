/-
What an operation of the server does to one field.

An operation puts a value under the field, drops everything under the key, or leaves the
field as it is; which of these it is can be read off the operation and its answer
(`get?_answer`).
-/
import AtMostOnce.Proofs.Fields.Entries

namespace AtMostOnce

/-- What is put last under a name counts, before anything that was there. -/
theorem Assoc.get?_insertAll {κ ν : Type} [DecidableEq κ] (m : Assoc κ ν) (entries : List (κ × ν))
    (key : κ) : get? (insertAll m entries) key =
      (get? (insertAll [] entries) key).or (get? m key) := by
  induction entries generalizing m with
  | nil => rfl
  | cons e rest ih =>
    show get? (insertAll (insert m e.1 e.2) rest) key =
      (get? (insertAll (insert [] e.1 e.2) rest) key).or (get? m key)
    rw [ih, ih (insert [] e.1 e.2), get?_insert, get?_insert]
    split
    · rw [Option.or_assoc]
      rfl
    · rw [Option.or_assoc, get?_nil, Option.none_or]

namespace FieldStore

/-- The value that an operation answered so puts under a field of a key. -/
def Operation.puts? (key field : String) : (op : Operation) → op.Answer → Option String
  | .claim key' field' value, .ok true =>
    if key' = key ∧ field' = field then some value else none
  | .write key' fields _, .ok _ =>
    if key' = key then Assoc.get? (Assoc.insertAll [] fields) field else none
  | .replace key' fields _, .ok _ =>
    if key' = key then Assoc.get? (Assoc.insertAll [] fields) field else none
  | _, _ => none

/-- Does the operation drop what is under a key? -/
def Operation.drops (key : String) : Operation → Bool
  | .replace key' _ _ => key' = key
  | .delete key' => key' = key
  | _ => false

/-- Does the operation lock a key? -/
def Operation.locks (key : String) : Operation → Bool
  | .lock key' _ _ => key' = key
  | _ => false

namespace Memory

variable {m : Memory} {now : Millis} {key : String} {e' : Entry}

/-- The value of a field of a key. -/
def field? (m : Memory) (now : Millis) (key field : String) : Option String :=
  (m.entry? now key).bind fun e => Assoc.get? e.fields field

theorem get?_claim (h : m.Distinct) {name value : String}
    (he' : entry? (answer now (.claim key name value) m).2 now key = some e') (field : String) :
    e'.fields.get? field =
      (Operation.puts? key field (.claim key name value)
        (answer now (.claim key name value) m).1).or (m.field? now key field) := by
  obtain ⟨granted, ha⟩ := claim_answered m now key name value
  cases granted with
  | false =>
    rw [(claim_refused h ha).2] at he'
    rw [ha, field?, he']
    rfl
  | true =>
    obtain ⟨e, he, -, hafter⟩ := claim_granted h ha
    rw [hafter] at he'
    cases he'
    rw [ha]
    show Assoc.get? (e.fields.insert name value) field = (if key = key ∧ name = field
      then some value else none).or (m.field? now key field)
    rw [Assoc.get?_insert]
    by_cases hname : name = field
    · rw [if_pos hname, if_pos ⟨rfl, hname⟩, Option.some_or]
    · rw [if_neg hname, if_neg (fun h => hname h.2), Option.none_or, he, field?]
      cases m.entry? now key <;> rfl

/-- An entry that is there after a write has its fields, over those that were there before. -/
theorem fields_write (h : m.Distinct) (sound : m.writeFails = false) {fields : Fields}
    {ttl : Option Int} (he' : entry? (answer now (.write key fields ttl) m).2 now key = some e') :
    e'.fields = ((m.entry? now key).getD ⟨[], none⟩).fields.insertAll fields := by
  rw [entry?_write h sound] at he'
  obtain ⟨hor, -⟩ := Option.filter_eq_some_iff.mp he'
  generalize m.entry? now key = old at hor ⊢
  unfold written at hor
  cases fields with
  | nil =>
    cases old with
    | none => cases ttl <;> cases hor
    | some e => cases ttl <;> cases hor <;> rfl
  | cons f fs => cases ttl <;> cases hor <;> rfl

/-- **What an operation leaves under a field of a key, if the key is still there and no lock was put
under it.** -/
theorem get?_answer (h : m.Distinct) (sound : m.writeFails = false) {op : Operation}
    (unlocked : op.locks key = false) (he' : entry? (answer now op m).2 now key = some e')
    (field : String) :
    e'.fields.get? field = (op.puts? key field (answer now op m).1).or
      (if op.drops key then none else m.field? now key field) := by
  by_cases hkey : op.key = key
  · cases op with
    | claim key' name value =>
      obtain rfl : key' = key := hkey
      exact get?_claim h he' field
    | write key' fields ttl =>
      obtain rfl : key' = key := hkey
      obtain ⟨_, hv⟩ := answer_ok sound now (.write key' fields ttl)
      rw [fields_write h sound he', Assoc.get?_insertAll, hv]
      simp only [Operation.puts?, Operation.drops, if_true, field?]
      cases m.entry? now key' <;> rfl
    | read key' =>
      obtain rfl : key' = key := hkey
      rw [entry?_read h] at he'
      simp only [Operation.puts?, Operation.drops, Option.none_or, field?, he']
      rfl
    | lock key' token ttl => exact absurd hkey (of_decide_eq_false unlocked)
    | replace key' fields ttl =>
      obtain rfl : key' = key := hkey
      rw [replace_fields h he']
      obtain ⟨_, hv⟩ := answer_ok sound now (.replace key' fields ttl)
      rw [hv]
      simp [Operation.puts?, Operation.drops]
    | delete key' =>
      obtain rfl : key' = key := hkey
      rw [show entry? (answer now (.delete key') m).2 now key' = none from
        (entry?_of_erase h none rfl key').trans (if_pos rfl)] at he'
      cases he'
  · have hputs : op.puts? key field (answer now op m).1 = none := by
      unfold Operation.puts?
      split
      · exact if_neg fun hk => hkey hk.1
      · exact if_neg hkey
      · exact if_neg hkey
      · rfl
    have hdrops : op.drops key = false := by
      unfold Operation.drops
      split
      · exact decide_eq_false hkey
      · exact decide_eq_false hkey
      · rfl
    rw [entry?_answer_of_ne h hkey] at he'
    rw [hputs, hdrops, field?, he']
    rfl

end Memory

end FieldStore

end AtMostOnce
