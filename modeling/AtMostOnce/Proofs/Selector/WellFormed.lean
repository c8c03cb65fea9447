/-
What is read is well formed.

Each rule of the grammar yields a node of the shape that the rule is named for: an index
was read from digits of the range, a list or hash has a first item, and what stands behind
a dot may stand behind a chain.  A chain grows to the left while its steps are read.
-/
import AtMostOnce.Proofs.Json.Reader
import AtMostOnce.Selector

namespace AtMostOnce

theorem Word.inRange_of_ofDigits? {cs : List Char} {i : Int} (h : ofDigits? cs = some i) :
    InRange i := by
  have parsed : ∀ {negative : Bool} {ds : List Char}, ofDigits?.parse negative ds = some i →
      InRange i := by
    intro negative ds h
    unfold ofDigits?.parse at h
    dsimp only at h
    split at h
    · cases h
    generalize (if negative = true then _ else _) = n at h
    split at h
    · rename_i hrange
      cases h
      exact hrange
    · cases h
  unfold ofDigits? at h
  split at h
  · exact parsed h
  · exact parsed h

namespace Selector

open AtMostOnce.Json

namespace Node

theorem wellFormedItems_iff {items : List Node} :
    wellFormedItems items = true ↔ ∀ n ∈ items, n.wellFormed = true := by
  induction items with
  | nil => simp [wellFormedItems]
  | cons n items ih => rw [wellFormedItems, Bool.and_eq_true, ih, List.forall_mem_cons]

theorem wellFormedEntries_iff {entries : List (String × Node)} :
    wellFormedEntries entries = true ↔ ∀ e ∈ entries, e.2.wellFormed = true := by
  induction entries with
  | nil => simp [wellFormedEntries]
  | cons e entries ih =>
    obtain ⟨name, n⟩ := e
    rw [wellFormedEntries, Bool.and_eq_true, ih, List.forall_mem_cons]

theorem wellFormed_list {items : List Node} :
    (list items).wellFormed = true ↔ items ≠ [] ∧ ∀ n ∈ items, n.wellFormed = true := by
  rw [wellFormed, Bool.and_eq_true, wellFormedItems_iff]
  simp

theorem wellFormed_hash {entries : List (String × Node)} :
    (hash entries).wellFormed = true ↔ entries ≠ [] ∧ ∀ e ∈ entries, e.2.wellFormed = true := by
  rw [wellFormed, Bool.and_eq_true, wellFormedEntries_iff]
  simp

theorem wellFormed_chain {left right : Node} :
    (chain left right).wellFormed = true ↔
      left.wellFormed = true ∧ right.isStep = true ∧ right.wellFormed = true := by
  rw [wellFormed, Bool.and_eq_true, Bool.and_eq_true, and_assoc]

end Node

/-! ### What the rules yield -/

/-- The node is well formed. -/
def Formed (n : Node) : Prop := n.wellFormed = true

/-- The node is well formed and may stand behind a chain. -/
def FormedStep (n : Node) : Prop := n.isStep = true ∧ n.wellFormed = true

variable {inner : Rule Node}

theorem yields_index : Yields FormedStep index := by
  intro cs n rest h
  unfold index at h
  dsimp only at h
  split at h
  · cases h
  · rename_i i hi
    split at h
    · cases h
      exact ⟨rfl, decide_eq_true (Word.inRange_of_ofDigits? hi)⟩
    · cases h

theorem yields_moreItems (h : Yields Formed inner) (fuel : Nat) :
    Yields (∀ n ∈ ·, Formed n) (moreItems inner fuel) := by
  induction fuel with
  | zero => nofun
  | succ fuel ih =>
    intro cs ns rest hr
    unfold moreItems at hr
    split at hr
    · cases hr
    split at hr
    · split at hr
      · cases hr
      · rename_i n _ hitem
        split at hr
        · cases hr
        · rename_i ns _ hitems
          cases hr
          exact List.forall_mem_cons.mpr ⟨h _ _ _ hitem, ih _ _ _ hitems⟩
    split at hr
    · cases hr
      nofun
    · cases hr

theorem yields_list (h : Yields Formed inner) : Yields FormedStep (list inner) := by
  intro cs n rest hr
  unfold list at hr
  split at hr
  · cases hr
  · rename_i n _ hitem
    split at hr
    · cases hr
    · rename_i ns _ hitems
      cases hr
      exact ⟨rfl, Node.wellFormed_list.mpr ⟨List.cons_ne_nil _ _,
        List.forall_mem_cons.mpr ⟨h _ _ _ hitem, yields_moreItems h _ _ _ _ hitems⟩⟩⟩

theorem yields_entries (h : Yields Formed inner) (fuel : Nat) :
    Yields (fun es => es ≠ [] ∧ ∀ e ∈ es, Formed e.2) (entries inner fuel) := by
  induction fuel with
  | zero => nofun
  | succ fuel ih =>
    intro cs es rest hr
    unfold entries at hr
    split at hr
    · cases hr
    split at hr
    · cases hr
    split at hr
    · cases hr
    · rename_i n _ hitem
      split at hr
      · cases hr
      split at hr
      · split at hr
        · cases hr
        · rename_i es _ hentries
          cases hr
          exact ⟨List.cons_ne_nil _ _,
            List.forall_mem_cons.mpr ⟨h _ _ _ hitem, (ih _ _ _ hentries).2⟩⟩
      split at hr
      · cases hr
        exact ⟨List.cons_ne_nil _ _, List.forall_mem_singleton.mpr (h _ _ _ hitem)⟩
      · cases hr

theorem yields_hash (h : Yields Formed inner) : Yields FormedStep (hash inner) := by
  intro cs n rest hr
  unfold hash at hr
  split at hr
  · cases hr
  · rename_i es _ hentries
    cases hr
    exact ⟨rfl, Node.wellFormed_hash.mpr (yields_entries h _ _ _ _ hentries)⟩

theorem yields_function (h : Yields Formed inner) (name : String) :
    Yields Formed (function inner name) := by
  intro cs n rest hr
  unfold function at hr
  split at hr
  · cases hr
  split at hr
  · cases hr
  split at hr
  · cases hr
  · rename_i m _ hargument
    split at hr
    · cases hr
    · cases hr
      have : Formed m := h _ _ _ hargument
      rwa [Formed, Node.wellFormed]

theorem yields_nameOrFunction (h : Yields Formed inner) :
    Yields Formed (nameOrFunction inner) := by
  intro cs n rest hr
  unfold nameOrFunction at hr
  dsimp only at hr
  split at hr
  · cases hr
    rfl
  split at hr
  · exact yields_function h _ _ _ _ hr
  · cases hr
    rfl

theorem yields_primary (h : Yields Formed inner) : Yields Formed (primary inner) := by
  intro cs n rest hr
  unfold primary at hr
  split at hr
  · cases hr
  split at hr
  · split at hr
    · exact (yields_index _ _ _ hr).2
    · exact (yields_list h _ _ _ hr).2
  split at hr
  · exact (yields_hash h _ _ _ hr).2
  split at hr
  · split at hr
    · cases hr
      rfl
    · cases hr
  split at hr
  · cases hr
    rfl
  split at hr
  · exact yields_nameOrFunction h _ _ _ hr
  · cases hr

theorem yields_afterDot (h : Yields Formed inner) : Yields FormedStep (afterDot inner) := by
  intro cs n rest hr
  unfold afterDot at hr
  split at hr
  · cases hr
  split at hr
  · split at hr
    · cases hr
      exact ⟨rfl, rfl⟩
    · cases hr
  split at hr
  · exact yields_list h _ _ _ hr
  split at hr
  · exact yields_hash h _ _ _ hr
  split at hr
  · cases hr
    exact ⟨rfl, rfl⟩
  · cases hr

theorem yields_steps (h : Yields Formed inner) (fuel : Nat) {n : Node} (hn : Formed n) :
    Yields Formed (steps inner fuel n) := by
  induction fuel generalizing n with
  | zero =>
    rintro cs _ _ ⟨⟩
    exact hn
  | succ fuel ih =>
    intro cs m rest hr
    unfold steps at hr
    split at hr
    · cases hr
      exact hn
    split at hr
    · split at hr
      · rename_i hstep
        exact ih (Node.wellFormed_chain.mpr ⟨hn, yields_afterDot h _ _ _ hstep⟩) _ _ _ hr
      · cases hr
    split at hr
    · split at hr
      · rename_i hstep
        exact ih (Node.wellFormed_chain.mpr ⟨hn, yields_index _ _ _ hstep⟩) _ _ _ hr
      · cases hr
    · cases hr
      exact hn

theorem yields_expression (depth : Nat) : Yields Formed (expression depth) := by
  induction depth with
  | zero => nofun
  | succ depth ih =>
    intro cs n rest hr
    unfold expression expressionWith at hr
    split at hr
    · rename_i hprimary
      exact yields_steps ih _ (yields_primary ih _ _ _ hprimary) _ _ _ hr
    · cases hr

/-- **Whatever text a selector is read from, its node is well formed.** -/
theorem parse_formed {source : String} {s : Selector} (h : parse source = .ok s) :
    s.source = source ∧ s.node.wellFormed = true := by
  unfold parse at h
  split at h
  · rename_i n hn
    cases h
    refine ⟨rfl, ?_⟩
    unfold parseNode at hn
    split at hn
    · cases hn
      rfl
    split at hn
    · cases hn
    · rename_i hread
      split at hn
      · cases hn
        exact yields_expression _ _ _ _ hread
      · cases hn
  · cases h

end Selector

end AtMostOnce
