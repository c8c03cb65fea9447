/-
When two values are the same.

The members of an object come in no order, so values are the same if one can be made
the other by listing members of its objects, at any depth, in another order (`Same`).
Sorting the keys picks one value of all that are the same: a value is the same as its
sorted form (`same_sortKeys`), and as long as no object has two members of one key, the
same values have one sorted form (`Same.sortKeys_eq`).
-/
import AtMostOnce.Json.Value
import Mathlib.Data.List.Sort

namespace AtMostOnce.Json.Value

/-- What holds of the scalars, and of an array or object if it holds of everything in it, holds of
every value. -/
@[elab_as_elim]
theorem induction {motive : Value → Prop} (null : motive .null) (bool : ∀ b, motive (.bool b))
    (number : ∀ n, motive (.number n)) (string : ∀ s, motive (.string s))
    (array : ∀ items, (∀ v ∈ items, motive v) → motive (.array items))
    (object : ∀ ms, (∀ m ∈ ms, motive m.2) → motive (.object ms)) (v : Value) : motive v :=
  @Value.rec motive (fun items => ∀ v ∈ items, motive v) (fun ms => ∀ m ∈ ms, motive m.2)
    (fun m => motive m.2)
    null bool number string (fun items h => array items h) (fun ms h => object ms h)
    (List.forall_mem_nil _) (fun _ _ hv h => List.forall_mem_cons.mpr ⟨hv, h⟩)
    (List.forall_mem_nil _) (fun _ _ hm h => List.forall_mem_cons.mpr ⟨hm, h⟩)
    (fun _ _ h => h) v

/-- No object, at any depth, has two members of one key. -/
inductive Keyed : Value → Prop
  | null : Keyed .null
  | bool (b : Bool) : Keyed (.bool b)
  | number (n : Number) : Keyed (.number n)
  | string (s : String) : Keyed (.string s)
  | array {items : List Value} (h : ∀ v ∈ items, Keyed v) : Keyed (.array items)
  | object {ms : Members} (distinct : ms.Distinct) (h : ∀ m ∈ ms, Keyed m.2) : Keyed (.object ms)

/-- Equal but for the order in which objects list their members. -/
inductive Same : Value → Value → Prop
  | refl (v : Value) : Same v v
  | trans {u v w : Value} (h : Same u v) (h' : Same v w) : Same u w
  /-- An object lists its members in another order. -/
  | reorder {ms ns : Members} (h : ms.Perm ns) : Same (.object ms) (.object ns)
  /-- The change is within an item of an array. -/
  | item (before after : List Value) {v w : Value} (h : Same v w) :
    Same (.array (before ++ v :: after)) (.array (before ++ w :: after))
  /-- The change is within a member of an object. -/
  | member (before after : Members) (key : String) {v w : Value} (h : Same v w) :
    Same (.object (before ++ (key, v) :: after)) (.object (before ++ (key, w) :: after))

variable {v w : Value}

/-- What holds of all in a list still does when one of them is replaced. -/
theorem forall_mem_replaced {α : Type} {p : α → Prop} {before after : List α} {a b : α}
    (h : ∀ c ∈ before ++ a :: after, p c) (hb : p a → p b) : ∀ c ∈ before ++ b :: after, p c := by
  rw [List.forall_mem_append, List.forall_mem_cons] at h ⊢
  exact ⟨h.1, hb h.2.1, h.2.2⟩

namespace Same

theorem symm (h : Same v w) : Same w v := by
  induction h with
  | refl v => exact .refl v
  | trans _ _ ih ih' => exact ih'.trans ih
  | reorder h => exact .reorder h.symm
  | item before after _ ih => exact .item before after ih
  | member before after key _ ih => exact .member before after key ih

theorem keyed (h : Same v w) (hv : v.Keyed) : w.Keyed := by
  induction h with
  | refl => exact hv
  | trans _ _ ih ih' => exact ih' (ih hv)
  | reorder hperm =>
    cases hv with
    | object distinct h =>
      exact .object ((hperm.map Prod.fst).nodup_iff.mp distinct)
        fun m hm => h m (hperm.mem_iff.mpr hm)
  | item before after _ ih =>
    cases hv with
    | array h => exact .array (forall_mem_replaced h ih)
  | member before after key _ ih =>
    cases hv with
    | object distinct h =>
      refine .object ?_ (forall_mem_replaced h ih)
      simpa [Assoc.Distinct] using distinct

/-- Arrays of the same items are the same. -/
theorem array {items items' : List Value} (h : List.Forall₂ Same items items') :
    Same (.array items) (.array items') := by
  suffices behind : ∀ before, Same (.array (before ++ items)) (.array (before ++ items')) from
    behind []
  induction h with
  | nil => exact fun before => .refl _
  | @cons v w _ _ h _ ih =>
    intro before
    refine (Same.item before _ h).trans ?_
    simpa using ih (before ++ [w])

/-- Objects with the same values under their keys are the same. -/
theorem object {ms ns : Members}
    (h : List.Forall₂ (fun m n => m.1 = n.1 ∧ Same m.2 n.2) ms ns) :
    Same (.object ms) (.object ns) := by
  suffices behind : ∀ before, Same (.object (before ++ ms)) (.object (before ++ ns)) from behind []
  induction h with
  | nil => exact fun before => .refl _
  | @cons m n _ _ h _ ih =>
    intro before
    obtain ⟨key, v⟩ := m
    obtain ⟨_, w⟩ := n
    obtain ⟨rfl, h⟩ := h
    refine (Same.member before _ key h).trans ?_
    simpa using ih (before ++ [(key, w)])

end Same

/-! ### Sorted keys -/

theorem sortItems_eq_map (items : List Value) : sortItems items = items.map sortKeys := by
  induction items with
  | nil => rfl
  | cons v items ih => rw [sortItems, ih, List.map_cons]

theorem sortMembers_eq_map (ms : Members) :
    sortMembers ms = ms.map fun m => (m.1, m.2.sortKeys) := by
  induction ms with
  | nil => rfl
  | cons m ms ih =>
    obtain ⟨key, v⟩ := m
    rw [sortMembers, ih, List.map_cons]

theorem same_sortKeys (v : Value) : Same v v.sortKeys := by
  induction v using Value.induction with
  | null => exact .refl _
  | bool b => exact .refl _
  | number n => exact .refl _
  | string s => exact .refl _
  | array items ih =>
    rw [sortKeys, sortItems_eq_map]
    exact .array (List.forall₂_map_right_iff.mpr (List.forall₂_same.mpr ih))
  | object ms ih =>
    rw [sortKeys, sortMembers_eq_map]
    refine (Same.object ?_).trans (.reorder (List.mergeSort_perm _ _).symm)
    exact List.forall₂_map_right_iff.mpr (List.forall₂_same.mpr fun m hm => ⟨rfl, ih m hm⟩)

theorem pairwise_mergeSort_keyLe (ms : Members) :
    (ms.mergeSort keyLe).Pairwise fun a b => keyLe a b = true := by
  refine List.pairwise_mergeSort ?_ ?_ ms
  · intro a b c hab hbc
    exact decide_eq_true (String.le_trans (of_decide_eq_true hab) (of_decide_eq_true hbc))
  · intro a b
    rcases String.le_total a.1 b.1 with h | h
    · exact Bool.or_eq_true_iff.mpr (.inl (decide_eq_true h))
    · exact Bool.or_eq_true_iff.mpr (.inr (decide_eq_true h))

/-- Members with distinct keys are sorted in one way, whatever order they are listed in. -/
theorem mergeSort_eq_of_perm {ms ns : Members} (h : ms.Perm ns) (distinct : ms.Distinct) :
    ms.mergeSort keyLe = ns.mergeSort keyLe := by
  refine List.Perm.eq_of_pairwise ?_ (pairwise_mergeSort_keyLe ms) (pairwise_mergeSort_keyLe ns)
    ((List.mergeSort_perm ms _).trans (h.trans (List.mergeSort_perm ns _).symm))
  intro a b ha hb hab hba
  have hkey : a.1 = b.1 :=
    String.le_antisymm (of_decide_eq_true hab) (of_decide_eq_true hba)
  have ha : a ∈ ms := List.mem_mergeSort.mp ha
  have hb : b ∈ ms := h.mem_iff.mpr (List.mem_mergeSort.mp hb)
  exact List.inj_on_of_nodup_map distinct ha hb hkey

/-- **The same values have one sorted form.** -/
theorem Same.sortKeys_eq (h : Same v w) (hv : v.Keyed) : v.sortKeys = w.sortKeys := by
  induction h with
  | refl => rfl
  | trans h _ ih ih' => exact (ih hv).trans (ih' (h.keyed hv))
  | @reorder ms ns hperm =>
    cases hv with
    | object distinct _ =>
      rw [sortKeys, sortKeys, sortMembers_eq_map, sortMembers_eq_map,
        mergeSort_eq_of_perm (hperm.map _)]
      simpa [Assoc.Distinct, Function.comp_def] using distinct
  | item before after _ ih =>
    cases hv with
    | array h =>
      rw [List.forall_mem_append, List.forall_mem_cons] at h
      simp only [sortKeys, sortItems_eq_map, List.map_append, List.map_cons, ih h.2.1]
  | member before after key _ ih =>
    cases hv with
    | object _ h =>
      rw [List.forall_mem_append, List.forall_mem_cons] at h
      simp only [sortKeys, sortMembers_eq_map, List.map_append, List.map_cons, ih h.2.1]

end AtMostOnce.Json.Value
