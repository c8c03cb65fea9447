/-
What a node selects.

Nothing that is selected has two members of one key, if the payload has none: a part of
the payload is a part of it, a hash is put together member by member, and text is decoded
by a reader that keeps keys apart.
-/
import AtMostOnce.Proofs.Json.Reader
import AtMostOnce.Selector.Node

namespace AtMostOnce.Selector.Node

open AtMostOnce.Json
open AtMostOnce.Json.Value (Keyed)

/-- What holds of the names and indexes, and of any other node if it holds of its parts, holds of
every node. -/
@[elab_as_elim]
theorem induction {motive : Node → Prop} (current : motive .current)
    (field : ∀ name, motive (.field name)) (index : ∀ i, motive (.index i))
    (chain : ∀ left right, motive left → motive right → motive (.chain left right))
    (list : ∀ items, (∀ n ∈ items, motive n) → motive (.list items))
    (hash : ∀ entries, (∀ e ∈ entries, motive e.2) → motive (.hash entries))
    (decoded : ∀ argument, motive argument → motive (.decoded argument)) (n : Node) : motive n :=
  @Node.rec motive (fun items => ∀ n ∈ items, motive n) (fun entries => ∀ e ∈ entries, motive e.2)
    (fun e => motive e.2)
    current field index chain (fun items h => list items h) (fun entries h => hash entries h)
    decoded
    (List.forall_mem_nil _) (fun _ _ hn h => List.forall_mem_cons.mpr ⟨hn, h⟩)
    (List.forall_mem_nil _) (fun _ _ he h => List.forall_mem_cons.mpr ⟨he, h⟩)
    (fun _ _ h => h) n

theorem searchItems_eq_map (items : List Node) (v : Value) :
    searchItems items v = items.map fun n => n.search v := by
  induction items with
  | nil => rfl
  | cons n items ih => rw [searchItems, ih, List.map_cons]

theorem searchEntries_eq_map (entries : List (String × Node)) (v : Value) :
    searchEntries entries v = entries.map fun e => (e.1, e.2.search v) := by
  induction entries with
  | nil => rfl
  | cons e entries ih =>
    obtain ⟨name, n⟩ := e
    rw [searchEntries, ih, List.map_cons]

theorem keyed_getD {v? : Option Value} (h : ∀ v ∈ v?, v.Keyed) : (v?.getD .null).Keyed := by
  cases v? with
  | none => exact .null
  | some v => exact h v rfl

theorem mem_of_get? {ms : Members} {name : String} {v : Value} (h : Assoc.get? ms name = some v) :
    (name, v) ∈ ms := by
  induction ms with
  | nil => cases h
  | cons m ms ih =>
    obtain ⟨k, w⟩ := m
    unfold Assoc.get? at h
    split at h
    · rename_i hk
      cases h
      exact hk ▸ List.mem_cons_self
    · exact List.mem_cons_of_mem _ (ih h)

theorem selectField_keyed {v : Value} (hv : v.Keyed) (name : String) :
    (selectField name v).Keyed := by
  cases hv with
  | object distinct h => exact keyed_getD fun w hw => h _ (mem_of_get? hw)
  | _ => exact .null

theorem selectIndex_keyed {v : Value} (hv : v.Keyed) (i : Int) : (selectIndex i v).Keyed := by
  cases hv with
  | array h =>
    simp only [selectIndex]
    generalize (if i < 0 then _ else i) = resolved
    split
    · exact .null
    · exact keyed_getD fun w hw => h w (List.mem_of_getElem? hw)
  | _ => exact .null

theorem decodeText_keyed (v : Value) : (decodeText v).Keyed := by
  cases v with
  | string s =>
    cases h : Json.parse s with
    | ok w =>
      simp only [decodeText, h]
      exact parse_keyed h
    | error e =>
      simp only [decodeText, h]
      exact .null
  | _ => exact .null

/-- **Nothing that is selected has two members of one key, if the payload has none.** -/
theorem search_keyed (n : Node) {v : Value} (hv : v.Keyed) : (n.search v).Keyed := by
  induction n using Node.induction generalizing v with
  | current => exact hv
  | field name => exact selectField_keyed hv name
  | index i => exact selectIndex_keyed hv i
  | chain left right ihl ihr =>
    unfold search
    dsimp only
    split
    · exact .null
    · exact ihr (ihl hv)
  | list items ih =>
    unfold search
    split
    · exact .null
    · rw [searchItems_eq_map]
      exact .array (List.forall_mem_map.mpr fun n hn => ih n hn hv)
  | hash entries ih =>
    unfold search
    split
    · exact .null
    · rw [searchEntries_eq_map]
      exact .ofList (List.forall_mem_map.mpr fun e he => ih e he hv)
  | decoded argument _ => exact decodeText_keyed _

end AtMostOnce.Selector.Node
