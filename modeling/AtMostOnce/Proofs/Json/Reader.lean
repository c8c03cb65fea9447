/-
What is read from a text.

A reader is described by what holds of everything that it yields (`Yields`), rule by rule.
An object is read into members in key order, the last of several values under one key
winning, so no value that is read has two members of one key (`parse_keyed`).
-/
import AtMostOnce.Json.Reader
import AtMostOnce.Proofs.Json.Value

namespace AtMostOnce.Json

/-! ### Members in key order -/

namespace Members

/-- The keys grow from member to member. -/
def Sorted (ms : Members) : Prop := ms.Pairwise fun a b => a.1 < b.1

variable {ms : Members} {key : String} {value : Value} {m : String × Value}

theorem Sorted.distinct (h : ms.Sorted) : ms.Distinct := by
  refine List.pairwise_map.mpr (h.imp ?_)
  intro a b hlt heq
  rw [heq] at hlt
  exact String.lt_irrefl _ hlt

theorem mem_insert (h : m ∈ insert key value ms) : m = (key, value) ∨ m ∈ ms := by
  induction ms with
  | nil => exact .inl (List.mem_singleton.mp h)
  | cons n rest ih =>
    obtain ⟨k, v⟩ := n
    unfold insert at h
    split at h
    · exact List.mem_cons.mp h
    split at h
    · exact (List.mem_cons.mp h).imp_right (List.mem_cons_of_mem _)
    · rcases List.mem_cons.mp h with rfl | h
      · exact .inr List.mem_cons_self
      · exact (ih h).imp_right (List.mem_cons_of_mem _)

theorem Sorted.insert (h : ms.Sorted) : (insert key value ms).Sorted := by
  induction ms with
  | nil => exact List.pairwise_singleton _ _
  | cons n rest ih =>
    obtain ⟨k, v⟩ := n
    obtain ⟨hhead, htail⟩ := List.pairwise_cons.mp h
    unfold Members.insert
    split
    · rename_i hlt
      refine List.pairwise_cons.mpr ⟨List.forall_mem_cons.mpr ⟨hlt, fun m hm => ?_⟩, h⟩
      exact String.lt_trans hlt (hhead m hm)
    split
    · rename_i heq
      subst heq
      exact List.pairwise_cons.mpr ⟨hhead, htail⟩
    · rename_i hlt hne
      refine List.pairwise_cons.mpr ⟨fun m hm => ?_, ih htail⟩
      rcases mem_insert hm with rfl | hm
      · exact Std.lt_of_le_of_ne (String.not_lt.mp hlt) hne
      · exact hhead m hm

theorem foldl_insert (entries : List (String × Value)) (ms : Members) (h : ms.Sorted) :
    (entries.foldl (fun acc m => Members.insert m.1 m.2 acc) ms).Sorted ∧
      ∀ m ∈ entries.foldl (fun acc m => Members.insert m.1 m.2 acc) ms, m ∈ ms ∨ m ∈ entries := by
  induction entries generalizing ms with
  | nil => exact ⟨h, fun m hm => .inl hm⟩
  | cons e entries ih =>
    obtain ⟨hsorted, hmem⟩ := ih (Members.insert e.1 e.2 ms) h.insert
    refine ⟨hsorted, fun m hm => ?_⟩
    rcases hmem m hm with hm | hm
    · rcases mem_insert hm with rfl | hm
      · exact .inr List.mem_cons_self
      · exact .inl hm
    · exact .inr (List.mem_cons_of_mem _ hm)

theorem ofList_sorted (entries : List (String × Value)) : (ofList entries).Sorted :=
  (foldl_insert entries [] .nil).1

theorem insert_of_lt (h : ∀ m ∈ ms, m.1 < key) : insert key value ms = ms ++ [(key, value)] := by
  induction ms with
  | nil => rfl
  | cons n rest ih =>
    obtain ⟨k, v⟩ := n
    obtain ⟨hlt, hrest⟩ := List.forall_mem_cons.mp h
    have hne : k ≠ key := by
      rintro rfl
      exact String.lt_irrefl _ hlt
    rw [insert, if_neg (String.lt_asymm hlt), if_neg hne, ih hrest, List.cons_append]

theorem foldl_insert_of_sorted (ms ns : Members) (h : Sorted (ms ++ ns)) :
    ns.foldl (fun acc m => insert m.1 m.2 acc) ms = ms ++ ns := by
  induction ns generalizing ms with
  | nil => simp
  | cons n ns ih =>
    have hbelow : ∀ m ∈ ms, m.1 < n.1 :=
      fun m hm => (List.pairwise_append.mp h).2.2 m hm n List.mem_cons_self
    rw [List.append_cons] at h ⊢
    rw [List.foldl_cons, insert_of_lt hbelow]
    exact ih _ h

/-- Members in key order stay as they are. -/
theorem Sorted.ofList_eq (h : ms.Sorted) : ofList ms = ms := foldl_insert_of_sorted [] ms h

theorem mem_of_mem_ofList {entries : List (String × Value)} (h : m ∈ ofList entries) :
    m ∈ entries :=
  ((foldl_insert entries [] .nil).2 m h).resolve_left nofun

end Members

theorem Value.Keyed.ofList {entries : List (String × Value)} (h : ∀ m ∈ entries, m.2.Keyed) :
    (Value.object (Members.ofList entries)).Keyed :=
  .object (Members.ofList_sorted entries).distinct fun m hm => h m (Members.mem_of_mem_ofList hm)

/-! ### Blanks -/

theorem skipBlanks_cons {c : Char} (h : isBlank c = false) (rest : List Char) :
    skipBlanks (c :: rest) = c :: rest := by
  simp [skipBlanks, h]

theorem not_isBlank_of_isDigit {c : Char} (h : c.isDigit = true) : isBlank c = false := by
  unfold isBlank
  rw [Bool.eq_false_iff]
  intro hblank
  simp only [Bool.or_eq_true, decide_eq_true_eq] at hblank
  rcases hblank with ((rfl | rfl) | rfl) | rfl <;> cases h

/-! ### What a reader yields -/

/-- Whatever the reader takes off a text has `p`. -/
def Yields {ε α : Type} (p : α → Prop) (r : List Char → Except ε (α × List Char)) : Prop :=
  ∀ cs a rest, r cs = .ok (a, rest) → p a

section

variable {α β : Type} {p : α → Prop} {r : Reader α}

theorem yields_keyword {a : α} (h : p a) (word : List Char) : Yields p (keyword α a word) := by
  induction word with
  | nil =>
    rintro cs _ _ ⟨⟩
    exact h
  | cons w word ih =>
    intro cs b rest hr
    cases cs with
    | nil => cases hr
    | cons c cs =>
      unfold keyword at hr
      split at hr
      · exact ih cs b rest hr
      · cases hr

theorem Yields.mapReader {f : α → β} {q : β → Prop} (h : ∀ a, q (f a)) :
    Yields q (mapReader f r) := by
  intro cs b rest hr
  unfold Json.mapReader at hr
  split at hr
  · cases hr
    exact h _
  · cases hr

theorem Yields.whole (h : Yields p r) {cs : List Char} {a : α} (hr : whole r cs = .ok a) : p a := by
  unfold Json.whole at hr
  split at hr
  · cases hr
  · rename_i b rest hread
    split at hr
    · cases hr
      exact h cs _ rest hread
    · cases hr

theorem Yields.listItems (h : Yields p r) (fuel : Nat) (first : Bool) :
    Yields (∀ a ∈ ·, p a) (listItems r fuel first) := by
  induction fuel generalizing first with
  | zero => nofun
  | succ fuel ih =>
    intro cs as rest hr
    unfold Json.listItems at hr
    split at hr
    · cases hr
    · cases hr
      nofun
    · split at hr
      · cases hr
      · rename_i a _ hitem
        split at hr
        · cases hr
        · rename_i as _ hitems
          cases hr
          exact List.forall_mem_cons.mpr ⟨h _ _ _ hitem, ih false _ _ _ hitems⟩

end

theorem Yields.objectMembers {p : Value → Prop} {r : Reader Value} (h : Yields p r) (fuel : Nat)
    (first : Bool) : Yields (fun ms : Members => ∀ m ∈ ms, p m.2) (objectMembers r fuel first) := by
  induction fuel generalizing first with
  | zero => nofun
  | succ fuel ih =>
    intro cs ms rest hr
    unfold Json.objectMembers at hr
    split at hr
    · cases hr
    · cases hr
      nofun
    split at hr
    · cases hr
    split at hr
    · cases hr
    split at hr
    · cases hr
    · rename_i v _ hitem
      split at hr
      · cases hr
      · rename_i ms _ hmembers
        cases hr
        exact List.forall_mem_cons.mpr ⟨h _ _ _ hitem, ih false _ _ _ hmembers⟩

/-! ### Keyed values -/

open Value (Keyed)

theorem yields_arrayOf {item : Reader Value} (h : Yields Keyed item) :
    Yields Keyed (arrayOf item) := by
  intro cs v rest hr
  unfold arrayOf at hr
  split at hr
  · cases hr
  · rename_i items _ hitems
    split at hr
    · cases hr
    · cases hr
      exact .array (h.listItems _ true _ _ _ hitems)

theorem yields_objectOf {item : Reader Value} (h : Yields Keyed item) :
    Yields Keyed (objectOf item) := by
  intro cs v rest hr
  unfold objectOf at hr
  split at hr
  · cases hr
  · rename_i ms _ hms
    split at hr
    · cases hr
    · cases hr
      exact .ofList (h.objectMembers _ true _ _ _ hms)

theorem yields_valueWith {inner : Option (Reader Value)}
    (h : ∀ item, inner = some item → Yields Keyed item) : Yields Keyed (valueWith inner) := by
  intro cs v rest hr
  unfold valueWith at hr
  split at hr
  · cases hr
  split at hr
  · exact yields_keyword .null _ _ _ _ hr
  split at hr
  · exact yields_keyword (.bool true) _ _ _ _ hr
  split at hr
  · exact yields_keyword (.bool false) _ _ _ _ hr
  split at hr
  · exact Yields.mapReader .number _ _ _ hr
  split at hr
  · exact Yields.mapReader .number _ _ _ hr
  split at hr
  · exact Yields.mapReader .string _ _ _ hr
  split at hr
  · split at hr
    · exact yields_arrayOf (h _ rfl) _ _ _ hr
    · cases hr
  split at hr
  · split at hr
    · exact yields_objectOf (h _ rfl) _ _ _ hr
    · cases hr
  · cases hr

theorem yields_value (depth : Nat) : Yields Keyed (value depth) := by
  induction depth with
  | zero => exact yields_valueWith nofun
  | succ depth ih =>
    refine yields_valueWith ?_
    rintro item ⟨⟩
    exact ih

/-- **No value that is read has two members of one key.** -/
theorem parse_keyed {source : String} {v : Value} (h : parse source = .ok v) : v.Keyed :=
  (yields_value maxDepth).whole h

end AtMostOnce.Json
