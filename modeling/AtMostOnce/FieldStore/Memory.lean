/-
A server of fields in memory.

Before each operation the keys whose time has come are dropped.  Times are 64-bit
milliseconds; the end of a time to live, and the time that is left until then, are
figures made of them.

`answerM` is the server over any arithmetic, and `answer` over the one that does not
check; the two go the same way until a figure leaves the range.
-/
import AtMostOnce.Arithmetic
import AtMostOnce.FieldStore
import AtMostOnce.Time

namespace AtMostOnce.FieldStore

/-- What the server keeps under a key. -/
structure Entry where
  fields : Fields
  /-- The millisecond from which the key is gone. -/
  dropAt : Option Millis
  deriving DecidableEq, Repr

/-- A server of fields in memory. -/
structure Memory where
  entries : Assoc String Entry
  /-- Fail the next write. -/
  writeFails : Bool
  deriving Repr

namespace Memory

/-- The server that keeps nothing. -/
def empty : Memory := ⟨[], false⟩

/-- Is the entry there at a point in time? -/
def isLive (now : Millis) (e : Entry) : Bool :=
  match e.dropAt with
  | some t => decide (now < t)
  | none => true

/-- The entries that are there at a point in time. -/
def live (m : Memory) (now : Millis) : Assoc String Entry :=
  m.entries.filter fun e => isLive now e.2

/-- The entry under a key at a point in time. -/
def entry? (m : Memory) (now : Millis) (key : String) : Option Entry := (m.live now).get? key

/-- The fields of a key at a point in time. -/
def fields? (m : Memory) (now : Millis) (key : String) : Option Fields :=
  (m.entry? now key).map Entry.fields

/-- The failure of a write that is to fail. -/
def writeFault : Error :=
  .persistence "Failed to write record to Redis" (.ofText "connection closed")

/-- An entry with fields put into it; none at all make no entry. -/
def merged (old : Option Entry) (fields : Fields) : Option Entry :=
  if fields.isEmpty then old
  else
    let e := old.getD ⟨[], none⟩
    some { e with fields := e.fields.insertAll fields }

/-- Puts an entry, or none, under a key. -/
def set (entries : Assoc String Entry) (key : String) : Option Entry → Assoc String Entry
  | some e => entries.insert key e
  | none => entries

/-! ### Over any arithmetic -/

section

variable {M : Type → Type} [Monad M] [Arithmetic M]

/-- The millisecond that lies some seconds ahead. -/
def aheadM (now : Millis) (ttl : Int) : M Millis := do figure (now + (← figure (ttl * 1000)))

/-- The seconds up to a millisecond, a half counting as one. -/
def secondsUntilM (now t : Millis) : M Int := do
  return (← figure ((← figure (t - now)) + 500)).tdiv 1000

/-- The time to live of a key at a point in time. -/
def ttlM (m : Memory) (now : Millis) (key : String) : M Int :=
  match m.entry? now key with
  | none => return noKey
  | some ⟨_, none⟩ => return noTtl
  | some ⟨_, some t⟩ => secondsUntilM now t

/-- The entry of a key after a write; a time to live alone makes no entry. -/
def writtenM (now : Millis) (old : Option Entry) (fields : Fields) (ttl : Option Int) :
    M (Option Entry) :=
  match ttl, merged old fields with
  | some ttl, some e => do return some { e with dropAt := some (← aheadM now ttl) }
  | _, e => return e

/-- Answers an operation at a point in time. -/
def answerM (now : Millis) : (op : Operation) → Memory → M (op.Answer × Memory)
  | .claim key field value, m =>
    let entries := m.live now
    let e := (entries.get? key).getD ⟨[], none⟩
    match e.fields.get? field with
    | some _ => return (.ok false, { m with entries := entries })
    | none =>
      let claimed := { e with fields := e.fields.insert field value }
      return (.ok true, { m with entries := entries.insert key claimed })
  | .write key fields ttl, m =>
    if m.writeFails then return (.error writeFault, { m with writeFails := false })
    else do
      let entries := m.live now
      let e ← writtenM now (entries.get? key) fields ttl
      return (.ok (), { m with entries := set entries key e })
  | .read key, m => do
    let ttl ← m.ttlM now key
    return (.ok ((m.fields? now key).getD [], ttl), { m with entries := m.live now })
  | .lock key token ttl, m =>
    let entries := m.live now
    match entries.get? key with
    | some _ => return (.ok false, { m with entries := entries })
    | none => do
      let e : Entry := ⟨[("value", token)], some (← aheadM now ttl)⟩
      return (.ok true, { m with entries := entries.insert key e })
  | .replace key fields ttl, m => do
    let entries := (m.live now).erase key
    let e ← writtenM now none fields ttl
    return (.ok (), { m with entries := set entries key e })
  | .delete key, m => return (.ok (), { m with entries := (m.live now).erase key })

end

/-! ### Without checks -/

/-- The millisecond that lies some seconds ahead, around the ends of the range. -/
def ahead (now : Millis) (ttl : Int) : Millis := Id.run (aheadM now ttl)

/-- The seconds up to a millisecond, around the ends of the range. -/
def secondsUntil (now t : Millis) : Int := Id.run (secondsUntilM now t)

/-- The time to live of a key, if it is not checked. -/
def ttl (m : Memory) (now : Millis) (key : String) : Int := Id.run (m.ttlM now key)

/-- The entry of a key after a write, if its end is not checked. -/
def written (now : Millis) (old : Option Entry) (fields : Fields) (ttl : Option Int) :
    Option Entry :=
  Id.run (writtenM now old fields ttl)

/-- Answers an operation at a point in time, without checks. -/
def answer (now : Millis) (op : Operation) (m : Memory) : op.Answer × Memory :=
  Id.run (answerM now op m)

section

variable {m : Memory} {now : Millis} {key : String} {fields : Fields}

theorem ahead_wrap (now : Millis) (ttl : Int) :
    ahead now ttl = Word.wrap (now + Word.wrap (ttl * 1000)) := rfl

theorem secondsUntil_wrap (now t : Millis) :
    secondsUntil now t = (Word.wrap (Word.wrap (t - now) + 500)).tdiv 1000 := rfl

theorem ttl_eq (m : Memory) (now : Millis) (key : String) :
    m.ttl now key = match m.entry? now key with
      | none => noKey
      | some ⟨_, none⟩ => noTtl
      | some ⟨_, some t⟩ => secondsUntil now t := by
  unfold ttl ttlM
  split <;> rfl

theorem written_none (old : Option Entry) :
    written now old fields none = merged old fields := by
  unfold written writtenM
  cases merged old fields <;> rfl

theorem written_some (old : Option Entry) (ttl : Int) :
    written now old fields (some ttl) =
      (merged old fields).map fun e => { e with dropAt := some (ahead now ttl) } := by
  unfold written writtenM
  cases merged old fields <;> rfl

theorem answer_claim (field value : String) :
    answer now (.claim key field value) m =
      match (((m.live now).get? key).getD ⟨[], none⟩).fields.get? field with
      | some _ => (.ok false, { m with entries := m.live now })
      | none =>
        let e := ((m.live now).get? key).getD ⟨[], none⟩
        let claimed := { e with fields := e.fields.insert field value }
        (.ok true, { m with entries := (m.live now).insert key claimed }) := by
  unfold answer answerM
  dsimp only
  split <;> rfl

theorem answer_write (ttl : Option Int) :
    answer now (.write key fields ttl) m =
      if m.writeFails then (.error writeFault, { m with writeFails := false })
      else
        (.ok (), { m with
          entries := set (m.live now) key (written now (m.entry? now key) fields ttl) }) := by
  unfold answer answerM
  dsimp only
  split <;> rfl

theorem answer_lock (token : String) (ttl : Int) :
    answer now (.lock key token ttl) m =
      match (m.live now).get? key with
      | some _ => (.ok false, { m with entries := m.live now })
      | none =>
        (.ok true, { m with
          entries := (m.live now).insert key ⟨[("value", token)], some (ahead now ttl)⟩ }) := by
  unfold answer answerM
  dsimp only
  split <;> rfl

end

end Memory

end AtMostOnce.FieldStore
