/-
Completed records kept close by.

The cache lists its records with the most recently used first; above its capacity
the one at the end goes.  It takes completed records in force only, and drops a
record that it is asked for once that has expired.
-/
import AtMostOnce.Record

namespace AtMostOnce

/-- Records kept close by, the most recently used first. -/
structure Cache where
  capacity : Nat
  records : List Record
  deriving Repr

namespace Cache

/-- The cache of a capacity without records. -/
def empty (capacity : Nat) : Cache := ⟨capacity, []⟩

/-- The record under a key. -/
def find? (c : Cache) (key : Key) : Option Record := c.records.find? fun r => r.key = key

/-- The cache without a key. -/
def erase (c : Cache) (key : Key) : Cache :=
  { c with records := c.records.filter fun r => r.key ≠ key }

/-- The cache with a record in front, within its capacity. -/
def push (c : Cache) (r : Record) : Cache :=
  { c with records := (r :: (c.erase r.key).records).take c.capacity }

/-- Looks a record up, which makes it the most recently used one. -/
def get (c : Cache) (now : Seconds) (key : Key) : Option Record × Cache :=
  match c.find? key with
  | none => (none, c)
  | some r => if r.isExpired now then (none, c.erase key) else (some r, c.push r)

/-- Keeps a record if it is completed and in force. -/
def put (c : Cache) (now : Seconds) (r : Record) : Cache :=
  if r.status = .completed && !r.isExpired now then c.push r else c

/-- How many records the cache holds. -/
def size (c : Cache) : Nat := c.records.length

/-! ### What the cache can hold -/

variable {c : Cache} {now : Seconds} {k : Key} {r r' : Record}

theorem find?_some (h : c.find? k = some r) : r ∈ c.records ∧ r.key = k :=
  ⟨List.mem_of_find?_eq_some h, by simpa using List.find?_some h⟩

theorem mem_erase (h : r ∈ (c.erase k).records) : r ∈ c.records := (List.mem_filter.mp h).1

theorem key_of_mem_erase (h : r ∈ (c.erase k).records) : r.key ≠ k := by
  simpa using (List.mem_filter.mp h).2

theorem mem_push (h : r' ∈ (c.push r).records) : r' = r ∨ (r' ∈ c.records ∧ r'.key ≠ r.key) := by
  rcases List.mem_cons.mp (List.mem_of_mem_take h) with h | h
  · exact .inl h
  · exact .inr ⟨mem_erase h, key_of_mem_erase h⟩

/-- A record that is looked up was there, under its key. -/
theorem get_some (h : (c.get now k).1 = some r) : r ∈ c.records ∧ r.key = k := by
  unfold get at h
  split at h
  · cases h
  · rename_i hf
    split at h
    · cases h
    · cases h
      exact find?_some hf

theorem get_unexpired (h : (c.get now k).1 = some r) : r.isExpired now = false := by
  unfold get at h
  split at h
  · cases h
  · split at h
    · cases h
    · rename_i hexpired
      cases h
      simpa using hexpired

/-- After a key was looked up in vain, the cache has nothing under it. -/
theorem key_of_get_none (h : (c.get now k).1 = none) (hr : r ∈ (c.get now k).2.records) :
    r.key ≠ k := by
  unfold get at h hr
  split at h
  · rename_i hnone
    rw [hnone] at hr
    simpa using List.find?_eq_none.mp hnone r hr
  · rename_i found hsome
    rw [hsome] at hr
    dsimp only at hr
    split at h
    · rename_i hexpired
      rw [if_pos hexpired] at hr
      exact key_of_mem_erase hr
    · cases h

/-- Looking a record up brings none. -/
theorem mem_get (h : r ∈ (c.get now k).2.records) : r ∈ c.records := by
  unfold get at h
  split at h
  · exact h
  · rename_i hf
    split at h
    · exact mem_erase h
    · rcases mem_push h with rfl | ⟨h, -⟩
      · exact (find?_some hf).1
      · exact h

theorem mem_put (h : r' ∈ (c.put now r).records) :
    (r' = r ∧ r.status = .completed) ∨ r' ∈ c.records := by
  unfold put at h
  split at h
  · rename_i hput
    rcases mem_push h with rfl | ⟨h, -⟩
    · exact .inl ⟨rfl, by simpa using (Bool.and_eq_true_iff.mp hput).1⟩
    · exact .inr h
  · exact .inr h

/-- A completed record in force is put in front. -/
theorem put_eq (hst : r.status = .completed) (hforce : r.isExpired now = false) :
    c.put now r = c.push r := by
  unfold put
  rw [hst, hforce]
  rfl

end Cache

end AtMostOnce
