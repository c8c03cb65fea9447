/-
Nothing outside is asked for.

An index is an integer of 64 bits, and so is the length that a negative index is added to; the
item is then looked for at what comes out.  `itemAt?` works in just these numbers, and has no
result where a sum leaves the range or an item is not there.  A length below `2 ^ 63` is not
negative, so its sum with a negative index stays in the range, and an item is only looked for
below the length (`itemAt?_eq`).  A search meets an array again and again on its way: in the
payload, put together by a list, or decoded from a text (`Indexes`).  If all that it meets are
short enough, it comes to its end without going wrong (`search?_eq`).

Together with what the cursor keeps to, this is all that can go wrong between a source and what it
selects (`never_out_of_bounds`).  How deep the two recurse is not counted here.
-/
import AtMostOnce.Proofs.Range
import AtMostOnce.Proofs.Selector.Node
import AtMostOnce.Proofs.Selector.RoundTrip
import AtMostOnce.Proofs.Selector.Scanning

namespace AtMostOnce

open AtMostOnce.Json

/-- The sum, if it stays in the range. -/
def Word.add? (a b : Int) : Option Int := if InRange (a + b) then some (a + b) else none

namespace Selector.Node

/-! ### One index -/

/-- Where an index points to among so many items, a negative one counting from the end: nowhere if
the sum leaves the range. -/
def place? (i length : Int) : Option Int := if i < 0 then Word.add? length i else some i

/-- The item at an index in 64-bit arithmetic: nothing if there is no place, or if the item that is
looked for is not there. -/
def itemAt? (i : Int) (items : List Value) : Option Value := do
  let length := Word.wrap items.length
  let place ← place? i length
  if 0 ≤ place ∧ place < length then items[place.toNat]? else some .null

theorem place?_eq {i length : Int} (hi : Word.InRange i) (hnonneg : 0 ≤ length)
    (hlength : Word.InRange length) :
    place? i length = some (if i < 0 then length + i else i) := by
  unfold place?
  split
  · rename_i hneg
    unfold Word.InRange Word.least Word.greatest at hi hlength
    exact if_pos (by unfold Word.InRange Word.least Word.greatest; omega)
  · rfl

/-- **No sum of an index and a length leaves the range, and no item is looked for that is not
there.** -/
theorem itemAt?_eq {i : Int} {items : List Value} (hi : Word.InRange i)
    (hitems : Word.InRange items.length) :
    itemAt? i items = some (selectIndex i (.array items)) := by
  simp only [itemAt?, Word.wrap_eq hitems, place?_eq hi (Int.natCast_nonneg _) hitems,
    Option.bind_eq_bind, Option.bind_some, selectIndex]
  generalize (if i < 0 then (items.length : Int) + i else i) = place
  by_cases h : 0 ≤ place ∧ place < items.length
  · have hlt : place.toNat < items.length := by omega
    rw [if_pos h, if_neg (by omega), List.getElem?_eq_getElem hlt]
    rfl
  · rw [if_neg h]
    split
    · rfl
    · rw [List.getElem?_eq_none (by omega)]
      rfl

/-! ### A search -/

mutual

/-- What a node selects from a value, in 64-bit arithmetic. -/
def search? : Node → Value → Option Value
  | current, v => some v
  | field name, v => some (selectField name v)
  | index i, v =>
    match v with
    | .array items => itemAt? i items
    | _ => some .null
  | chain left right, v => do
    let w ← search? left v
    if w.isNull then some .null else search? right w
  | list items, v => if v.isNull then some .null else return .array (← searchItems? items v)
  | hash entries, v =>
    if v.isNull then some .null else return .object (Members.ofList (← searchEntries? entries v))
  | decoded argument, v => return decodeText (← search? argument v)

/-- What each item selects. -/
def searchItems? : List Node → Value → Option (List Value)
  | [], _ => some []
  | n :: rest, v => return (← search? n v) :: (← searchItems? rest v)

/-- What each entry selects, under its name. -/
def searchEntries? : List (String × Node) → Value → Option Members
  | [], _ => some []
  | (name, n) :: rest, v => return (name, ← search? n v) :: (← searchEntries? rest v)

end

theorem searchItems?_eq {items : List Node} {v : Value}
    (h : ∀ n ∈ items, n.search? v = some (n.search v)) :
    searchItems? items v = some (searchItems items v) := by
  induction items with
  | nil => rfl
  | cons n rest ih =>
    obtain ⟨hn, hrest⟩ := List.forall_mem_cons.mp h
    rw [searchItems?, hn, ih hrest]
    rfl

theorem searchEntries?_eq {entries : List (String × Node)} {v : Value}
    (h : ∀ e ∈ entries, e.2.search? v = some (e.2.search v)) :
    searchEntries? entries v = some (searchEntries entries v) := by
  induction entries with
  | nil => rfl
  | cons e rest ih =>
    obtain ⟨name, n⟩ := e
    obtain ⟨hn, hrest⟩ := List.forall_mem_cons.mp h
    rw [searchEntries?, hn, ih hrest]
    rfl

/-- On its way through a value, the node looks for the item at an index of an array. -/
inductive Indexes : Node → Value → Int → List Value → Prop
  | here (i : Int) (items : List Value) : Indexes (index i) (.array items) i items
  | left {left right : Node} {v : Value} {i : Int} {items : List Value}
    (h : Indexes left v i items) : Indexes (chain left right) v i items
  | right {left right : Node} {v : Value} {i : Int} {items : List Value}
    (hnull : (left.search v).isNull = false) (h : Indexes right (left.search v) i items) :
    Indexes (chain left right) v i items
  | item {ns : List Node} {n : Node} {v : Value} {i : Int} {items : List Value}
    (hnull : v.isNull = false) (hn : n ∈ ns) (h : Indexes n v i items) :
    Indexes (list ns) v i items
  | entry {es : List (String × Node)} {e : String × Node} {v : Value} {i : Int}
    {items : List Value} (hnull : v.isNull = false) (he : e ∈ es) (h : Indexes e.2 v i items) :
    Indexes (hash es) v i items
  | decoded {argument : Node} {v : Value} {i : Int} {items : List Value}
    (h : Indexes argument v i items) : Indexes (decoded argument) v i items

variable {n : Node} {v : Value} {i : Int} {items : List Value}

/-- Every index that is looked for is one of the node, and so in the range. -/
theorem Indexes.inRange (h : n.Indexes v i items) (hn : n.wellFormed = true) :
    Word.InRange i := by
  induction h with
  | here i items => exact of_decide_eq_true hn
  | left _ ih => exact ih (wellFormed_chain.mp hn).1
  | right _ _ ih => exact ih (wellFormed_chain.mp hn).2.2
  | item _ hmem _ ih => exact ih ((wellFormed_list.mp hn).2 _ hmem)
  | entry _ hmem _ ih => exact ih ((wellFormed_hash.mp hn).2 _ hmem)
  | decoded _ ih => exact ih hn

/-- **A search that meets no array too long for its length comes to its end.** -/
theorem search?_eq (hn : n.wellFormed = true)
    (hitems : ∀ i items, n.Indexes v i items → Word.InRange items.length) :
    n.search? v = some (n.search v) := by
  induction n using Node.induction generalizing v with
  | current => rfl
  | field name => rfl
  | index i =>
    cases v with
    | array items =>
      exact itemAt?_eq ((Indexes.here i items).inRange hn) (hitems i items (.here i items))
    | _ => rfl
  | chain left right ihl ihr =>
    obtain ⟨hleft, -, hright⟩ := wellFormed_chain.mp hn
    rw [search?, search, ihl hleft fun i items h => hitems i items h.left]
    dsimp only [Option.bind_eq_bind, Option.bind_some]
    split
    · rfl
    · rename_i hnull
      rw [Bool.not_eq_true] at hnull
      exact ihr hright fun i items h => hitems i items (.right hnull h)
  | list ns ih =>
    obtain ⟨-, hall⟩ := wellFormed_list.mp hn
    rw [search?, search]
    split
    · rfl
    · rename_i hnull
      rw [Bool.not_eq_true] at hnull
      rw [searchItems?_eq fun n hmem =>
        ih n hmem (hall n hmem) fun i items h => hitems i items (.item hnull hmem h)]
      rfl
  | hash es ih =>
    obtain ⟨-, hall⟩ := wellFormed_hash.mp hn
    rw [search?, search]
    split
    · rfl
    · rename_i hnull
      rw [Bool.not_eq_true] at hnull
      rw [searchEntries?_eq fun e hmem =>
        ih e hmem (hall e hmem) fun i items h => hitems i items (.entry hnull hmem h)]
      rfl
  | decoded argument ih =>
    rw [search?, search, ih hn fun i items h => hitems i items h.decoded]
    rfl

end Selector.Node

namespace Selector

theorem Cursor.Mark.Within.between? {source : String} {start stop : Nat}
    (h : (Cursor.Mark.cut start stop).Within source) :
    ∃ text, Text.between? source start stop = some text :=
  ⟨_, dif_pos ⟨h.1, h.2.2.1, h.2.2.2⟩⟩

/-- **Neither reading a source nor searching with what was read asks for anything outside.**  The
cursor comes to what `parse` says and never crashes; every text that it cuts out is there, on its
way it keeps within the source, and every rule that succeeds has taken something of it.  And
whatever index is looked for in an array of fewer than `2 ^ 63` items, no sum leaves the range and
no item is missing, so a search that meets no longer array comes to its end. -/
theorem never_out_of_bounds (source : String) :
    (∃ st, Cursor.read source =
        (match parse source with
          | .ok s => .ok s.node st
          | .error e => .error (.refused e) st) ∧
      (∀ m ∈ st.marks, m.Within source) ∧
      ∀ start stop, .cut start stop ∈ st.marks →
        ∃ text, Text.between? source start stop = some text) ∧
    (∀ i items, Word.InRange i → Word.InRange items.length →
      Node.itemAt? i items = some (Node.selectIndex i (.array items))) ∧
    ∀ s, parse source = .ok s → ∀ v,
      (∀ i items, s.node.Indexes v i items → Word.InRange i) ∧
      ((∀ i items, s.node.Indexes v i items → Word.InRange items.length) →
        s.node.search? v = some (s.search v)) := by
  obtain ⟨st, hclean, hread⟩ := Cursor.read_eq source
  refine ⟨⟨st, hread, hclean, fun start stop hcut => (hclean _ hcut).between?⟩,
    fun i items hi hitems => Node.itemAt?_eq hi hitems, fun s hs v => ?_⟩
  have hn := (parse_formed hs).2
  exact ⟨fun i items h => h.inRange hn, fun hitems => Node.search?_eq hn hitems⟩

/-- The last item of an array in a field whose name ends in a backslash. -/
theorem never_out_of_bounds_last :
    let n : Node := .chain (.field "é\\") (.index (-1))
    let source := "\"é\\\\\"[-1]"
    (∃ st, Cursor.read source = .ok n st ∧ ∀ m ∈ st.marks, m.Within source) ∧
      Node.itemAt? (-1) [.null, .bool true] = some (.bool true) ∧
      n.search? (.object [("é\\", .array [.null, .bool true])]) = some (.bool true) := by
  intro n source
  have htext : source = String.ofList n.render := by decide
  have hparse : parse source = .ok ⟨source, n⟩ := by
    rw [htext, parse, String.toList_ofList, parseNode_render (by decide)]
  obtain ⟨⟨st, hread, hwithin, -⟩, hitem, hsearch⟩ := never_out_of_bounds source
  rw [hparse] at hread
  -- the one array that is met is the one under the field
  have hshort : ∀ i items, n.Indexes (.object [("é\\", .array [.null, .bool true])]) i items →
      Word.InRange items.length := by
    intro i items h
    change Node.Indexes (.chain (.field "é\\") (.index (-1))) _ i items at h
    cases h with
    | left h => cases h
    | right _ h =>
      change Node.Indexes (.index (-1)) (.array [.null, .bool true]) i items at h
      cases h
      decide
  exact ⟨⟨st, hread, hwithin⟩, hitem (-1) _ (by decide) (by decide), (hsearch _ hparse _).2 hshort⟩

end Selector

end AtMostOnce
