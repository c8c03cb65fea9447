/-
Finite maps, as lists of pairs with distinct keys.
-/

namespace AtMostOnce

/-- A finite map; of two pairs with one key the first counts. -/
abbrev Assoc (κ ν : Type) := List (κ × ν)

namespace Assoc

variable {κ ν : Type} [DecidableEq κ]

/-- The value under a key. -/
def get? : Assoc κ ν → κ → Option ν
  | [], _ => none
  | (k, v) :: rest, key => if k = key then some v else get? rest key

/-- The map without a key. -/
def erase (m : Assoc κ ν) (key : κ) : Assoc κ ν := m.filter fun e => e.1 ≠ key

/-- The map with a value put under a key. -/
def insert (m : Assoc κ ν) (key : κ) (value : ν) : Assoc κ ν := (key, value) :: erase m key

/-- Several values put under their keys, one after the other. -/
def insertAll (m : Assoc κ ν) (entries : List (κ × ν)) : Assoc κ ν :=
  entries.foldl (fun m e => insert m e.1 e.2) m

@[simp] theorem get?_nil (key : κ) : get? ([] : Assoc κ ν) key = none := rfl

theorem get?_erase (m : Assoc κ ν) (key key' : κ) :
    get? (erase m key) key' = if key = key' then none else get? m key' := by
  induction m with
  | nil => simp [erase]
  | cons e rest ih =>
    obtain ⟨k, v⟩ := e
    simp only [erase, List.filter_cons] at ih ⊢
    by_cases hk : k = key
    · subst hk
      by_cases hk' : k = key' <;> simp_all [get?]
    · by_cases hk' : k = key'
      · subst hk'
        simp [get?, hk, Ne.symm hk]
      · simp_all [get?]

theorem get?_insert (m : Assoc κ ν) (key key' : κ) (value : ν) :
    get? (insert m key value) key' = if key = key' then some value else get? m key' := by
  by_cases h : key = key' <;> simp [insert, get?, get?_erase, h]

theorem get?_insertAll_of_notMem (m : Assoc κ ν) (entries : List (κ × ν)) {key : κ}
    (h : key ∉ entries.map Prod.fst) : get? (insertAll m entries) key = get? m key := by
  induction entries generalizing m with
  | nil => rfl
  | cons e rest ih =>
    rw [List.map_cons, List.mem_cons, not_or] at h
    show get? (insertAll (insert m e.1 e.2) rest) key = get? m key
    rw [ih _ h.2, get?_insert, if_neg (Ne.symm h.1)]

theorem get?_eq_none {m : Assoc κ ν} {key : κ} (h : key ∉ m.map Prod.fst) : get? m key = none := by
  induction m with
  | nil => rfl
  | cons e rest ih =>
    rw [List.map_cons, List.mem_cons, not_or] at h
    show (if e.1 = key then some e.2 else get? rest key) = none
    rw [if_neg (Ne.symm h.1)]
    exact ih h.2

/-! ### Distinct keys -/

/-- Are the keys distinct? -/
def Distinct (m : Assoc κ ν) : Prop := (m.map Prod.fst).Nodup

omit [DecidableEq κ] in
theorem Distinct.filter {m : Assoc κ ν} (h : Distinct m) (p : κ × ν → Bool) :
    Distinct (m.filter p) :=
  List.Nodup.sublist (List.Sublist.map _ List.filter_sublist) h

theorem Distinct.erase {m : Assoc κ ν} (h : Distinct m) (key : κ) : Distinct (erase m key) :=
  h.filter _

theorem Distinct.insert {m : Assoc κ ν} (h : Distinct m) (key : κ) (value : ν) :
    Distinct (insert m key value) := by
  refine List.nodup_cons.mpr ⟨?_, h.erase key⟩
  intro hmem
  obtain ⟨e, he, hk⟩ := List.mem_map.mp hmem
  have hne := (List.mem_filter.mp he).2
  simp [hk] at hne

/-- With distinct keys, a filtered map has under a key what the map has, if the filter lets it
through. -/
theorem get?_filter {m : Assoc κ ν} (h : Distinct m) (p : κ × ν → Bool) (key : κ) :
    get? (m.filter p) key = (get? m key).filter fun v => p (key, v) := by
  induction m with
  | nil => rfl
  | cons e rest ih =>
    obtain ⟨k, v⟩ := e
    obtain ⟨hnot, hrest⟩ := List.nodup_cons.mp h
    have ih := ih hrest
    by_cases hk : k = key
    · subst hk
      have hnone : get? rest k = none := get?_eq_none hnot
      by_cases hp : p (k, v) = true
      · simp [hp, get?, Option.filter]
      · simp [hp, get?, ih, hnone, Option.filter]
    · by_cases hp : p (k, v) = true
      · simp [hp, get?, hk, ih]
      · simp [hp, get?, hk, ih]

end Assoc

end AtMostOnce
