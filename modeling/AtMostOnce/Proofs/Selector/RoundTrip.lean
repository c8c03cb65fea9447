/-
A node is read back from its text.

The text of a node ends where the rules stop: a literal at its closing quote, everything in
brackets at its bracket.  Only a chain could go on, so what is read back from a node's text
with more behind it is the node and then whatever steps that rest starts with
(`expressionWith_render`).  The bracketed parts of a node have shorter texts than the
node, and this is what the induction is on: a reader for all shorter texts makes one for this
text (`expression_render`).
-/
import AtMostOnce.Proofs.Decimal
import AtMostOnce.Proofs.Json.Literal
import AtMostOnce.Proofs.Selector.Node
import AtMostOnce.Proofs.Selector.WellFormed

namespace AtMostOnce

/-! ### Digits -/

theorem Word.ofDigits?_integerText {i : Int} (h : InRange i) :
    ofDigits? (Text.integerText i) = some i := by
  have hread : ofSignedDigits? (Text.integerText i) = some i := by
    simpa [Text.decimal, h] using ofSignedDigits?_decimal i
  obtain ⟨d, ds, hdigits, htext | htext⟩ := Text.integerText_cases i
  · have hd : d.isDigit = true := hdigits d List.mem_cons_self
    rw [htext] at hread ⊢
    rw [← hread]
    unfold ofSignedDigits?
    split
    · rename_i h
      cases h
      cases hd
    · rfl
  · rw [htext] at hread ⊢
    exact hread

namespace Selector

open AtMostOnce.Json

/-! ### Names -/

theorem scanQuoted_plain {c : Char} {cs inside rest : List Char} (hquote : c ≠ '"')
    (hback : c ≠ '\\') (h : scanQuoted cs = .ok (inside, rest)) :
    scanQuoted (c :: cs) = .ok (c :: inside, rest) := by
  rw [scanQuoted.eq_def]
  simp [hquote, hback, h]

theorem scanQuoted_escaped (d : Char) {cs inside rest : List Char}
    (h : scanQuoted cs = .ok (inside, rest)) :
    scanQuoted ('\\' :: d :: cs) = .ok ('\\' :: d :: inside, rest) := by
  rw [scanQuoted.eq_def]
  simp [h]

theorem hexDigit_plain {n : Nat} (h : n < 16) :
    Text.hexDigit n ≠ '"' ∧ Text.hexDigit n ≠ '\\' := by
  have all : ∀ n < 16, Text.hexDigit n ≠ '"' ∧ Text.hexDigit n ≠ '\\' := by decide
  exact all n h

/-- No quote within an escape ends the literal. -/
theorem scanQuoted_escapeChar (c : Char) {cs inside rest : List Char}
    (h : scanQuoted cs = .ok (inside, rest)) :
    scanQuoted (escapeChar c ++ cs) = .ok (escapeChar c ++ inside, rest) := by
  unfold escapeChar
  split
  · exact scanQuoted_escaped _ h
  split
  · exact scanQuoted_escaped _ h
  split
  · exact scanQuoted_escaped _ h
  split
  · exact scanQuoted_escaped _ h
  split
  · exact scanQuoted_escaped _ h
  split
  · exact scanQuoted_escaped _ h
  split
  · exact scanQuoted_escaped _ h
  split
  · rename_i hcontrol
    have hhigh := hexDigit_plain (n := c.toNat / 16) (by omega)
    have hlow := hexDigit_plain (n := c.toNat % 16) (by omega)
    exact scanQuoted_escaped _ (scanQuoted_plain (by decide) (by decide)
      (scanQuoted_plain (by decide) (by decide)
        (scanQuoted_plain hhigh.1 hhigh.2 (scanQuoted_plain hlow.1 hlow.2 h))))
  · rename_i hquote hback _ _ _ _ _ _
    exact scanQuoted_plain hquote hback h

theorem scanQuoted_escape (cs rest : List Char) :
    scanQuoted (escape cs ++ '"' :: rest) = .ok (escape cs ++ ['"'], rest) := by
  induction cs with
  | nil =>
    rw [scanQuoted.eq_def]
    simp [escape]
  | cons c cs ih =>
    rw [escape, List.append_assoc, List.append_assoc]
    exact scanQuoted_escapeChar c ih

/-- A name is read back from its literal. -/
theorem quotedName_escape (name : String) (rest : List Char) :
    quotedName (escape name.toList ++ '"' :: rest) = .ok (name, rest) := by
  unfold quotedName
  rw [scanQuoted_escape]
  have hread : whole stringLiteral (escape name.toList ++ ['"']) = .ok name := by
    rw [whole, stringLiteral_escape name []]
    rfl
  simp only [hread]

/-! ### Indexes -/

theorem takeWhile_digits {ds : List Char} (h : ∀ c ∈ ds, c.isDigit = true) {c : Char}
    (hc : c.isDigit = false) (rest : List Char) :
    (ds ++ c :: rest).takeWhile Char.isDigit = ds ∧
      (ds ++ c :: rest).dropWhile Char.isDigit = c :: rest := by
  rw [List.takeWhile_append_of_pos h, List.dropWhile_append_of_pos h]
  simp [hc]

theorem expect_cons (c : Char) (h : isBlank c = false) (rest : List Char) :
    expect c (c :: rest) = .ok ((), rest) := by
  simp [expect, skipBlanks_cons h]

theorem skipBlanks_integerText (i : Int) (rest : List Char) :
    skipBlanks (Text.integerText i ++ rest) = Text.integerText i ++ rest := by
  obtain ⟨d, ds, hdigits, htext | htext⟩ := Text.integerText_cases i
  · rw [htext]
    exact skipBlanks_cons (not_isBlank_of_isDigit (hdigits d List.mem_cons_self)) _
  · rw [htext]
    exact skipBlanks_cons (by decide) _

theorem integerPart_integerText (i : Int) (rest : List Char) :
    integerPart (Text.integerText i ++ ']' :: rest) = (Text.integerText i, ']' :: rest) := by
  obtain ⟨d, ds, hdigits, htext | htext⟩ := Text.integerText_cases i
  all_goals
    obtain ⟨htake, hdrop⟩ := takeWhile_digits hdigits (c := ']') (by decide) rest
    rw [htext]
  · unfold integerPart
    split
    · rename_i h
      have hd := hdigits d List.mem_cons_self
      cases h
      cases hd
    · rw [htake, hdrop]
  · show ('-' :: List.takeWhile Char.isDigit (d :: ds ++ ']' :: rest),
      List.dropWhile Char.isDigit (d :: ds ++ ']' :: rest)) = _
    rw [htake, hdrop]

theorem looksLikeIndex_integerText (i : Int) (rest : List Char) :
    looksLikeIndex (Text.integerText i ++ ']' :: rest) = true := by
  obtain ⟨d, ds, hdigits, htext | htext⟩ := Text.integerText_cases i
  all_goals
    have hd : d.isDigit = true := hdigits d List.mem_cons_self
    have hdrop := (takeWhile_digits (List.forall_mem_cons.mp hdigits).2 (c := ']') (by decide)
      rest).2
    rw [htext]
  · have hspace : d ≠ ' ' := by
      rintro rfl
      cases hd
    have hminus : d ≠ '-' := by
      rintro rfl
      cases hd
    simp [looksLikeIndex, hspace, hminus, hd, hdrop, isSpace]
  · simp [looksLikeIndex, hd, hdrop, isSpace]

/-- An index is read back, the text behind its bracket left. -/
theorem index_integerText {i : Int} (h : Word.InRange i) (rest : List Char) :
    index (Text.integerText i ++ ']' :: rest) = .ok (.index i, rest) := by
  simp only [index, skipBlanks_integerText, integerPart_integerText, Word.ofDigits?_integerText h,
    expect_cons ']' (by decide)]

/-! ### Texts of nodes -/

namespace Node

/-- The characters that the text of a node may start with. -/
def openers : List Char := ['@', '"', '[', '\x7b', 'p']

theorem render_head (n : Node) : ∃ c rest, n.render = c :: rest ∧ c ∈ openers := by
  induction n using Node.induction with
  | current => exact ⟨_, _, rfl, by decide⟩
  | field name => exact ⟨_, _, rfl, by decide⟩
  | index i => exact ⟨_, _, rfl, by decide⟩
  | chain left right ih _ =>
    obtain ⟨c, rest, hleft, hc⟩ := ih
    rw [render, hleft]
    exact ⟨c, _, rfl, hc⟩
  | list items => exact ⟨_, _, rfl, by decide⟩
  | hash entries => exact ⟨_, _, rfl, by decide⟩
  | decoded argument => exact ⟨'p', _, rfl, by decide⟩

theorem skipBlanks_render (n : Node) (rest : List Char) :
    skipBlanks (n.render ++ rest) = n.render ++ rest := by
  obtain ⟨c, cs, hn, hc⟩ := n.render_head
  have all : ∀ c ∈ openers, isBlank c = false := by simp [openers, isBlank]
  rw [hn]
  exact skipBlanks_cons (all c hc) _

/-- A list is not taken for an index. -/
theorem looksLikeIndex_render (n : Node) (rest : List Char) :
    looksLikeIndex (n.render ++ rest) = false := by
  obtain ⟨c, cs, hn, hc⟩ := n.render_head
  have all : ∀ c ∈ openers, c ≠ ' ' ∧ c ≠ '-' ∧ c.isDigit = false := by
    simp [openers, Char.isDigit]
  obtain ⟨hspace, hminus, hdigit⟩ := all c hc
  rw [hn]
  simp [looksLikeIndex, isSpace, hspace, hminus, hdigit]

theorem renderItems_cons (n : Node) (items : List Node) :
    renderItems (n :: items) = n.render ++ items.flatMap fun m => ',' :: m.render := by
  induction items generalizing n with
  | nil => simp [renderItems]
  | cons m items ih => rw [renderItems, ih, List.flatMap_cons, List.cons_append]

theorem length_render_item {n : Node} {items : List Node} (h : n ∈ items) :
    n.render.length < (list items).render.length := by
  suffices inside : n.render.length ≤ (renderItems items).length by
    rw [render, List.length_cons, List.length_append]
    omega
  induction items with
  | nil => cases h
  | cons m items ih =>
    cases items with
    | nil =>
      obtain rfl := List.mem_singleton.mp h
      exact le_refl _
    | cons m' items =>
      rw [renderItems, List.length_append, List.length_cons]
      rcases List.mem_cons.mp h with rfl | h
      · omega
      · have := ih h
        omega

theorem length_render_entry {e : String × Node} {entries : List (String × Node)}
    (h : e ∈ entries) : e.2.render.length < (hash entries).render.length := by
  suffices inside : e.2.render.length ≤ (renderEntries entries).length by
    rw [render, List.length_cons, List.length_append]
    omega
  induction entries with
  | nil => cases h
  | cons e' entries ih =>
    obtain ⟨name, n⟩ := e'
    cases entries with
    | nil =>
      obtain rfl := List.mem_singleton.mp h
      simp only [renderEntries, List.length_append, List.length_cons]
      omega
    | cons e' entries =>
      simp only [renderEntries, List.length_append, List.length_cons]
      rcases List.mem_cons.mp h with rfl | h
      · dsimp only
        omega
      · have := ih h
        omega

end Node

/-! ### Reading nodes back -/

/-- Nothing at the start of the text goes on with a node. -/
def Closes (rest : List Char) : Prop := ∀ c ∈ rest.head?, isBlank c = false ∧ c ≠ '.' ∧ c ≠ '['

theorem closes_cons {c : Char} (h : isBlank c = false ∧ c ≠ '.' ∧ c ≠ '[') (rest : List Char) :
    Closes (c :: rest) := by
  rintro _ ⟨⟩
  exact h

/-- The rule reads the node back from its text, whatever closes it. -/
def Reads (r : Rule Node) (n : Node) : Prop :=
  ∀ rest, Closes rest → r (n.render ++ rest) = .ok (n, rest)

variable {inner : Rule Node}

theorem closes_items (items : List Node) (rest : List Char) :
    Closes (items.flatMap (fun n => ',' :: n.render) ++ ']' :: rest) := by
  cases items with
  | nil => exact closes_cons (by decide) _
  | cons n items => exact closes_cons (by decide) _

theorem moreItems_render {items : List Node} (h : ∀ n ∈ items, Reads inner n) (rest : List Char)
    {fuel : Nat} (hfuel : (items.flatMap fun n => ',' :: n.render).length < fuel) :
    moreItems inner fuel (items.flatMap (fun n => ',' :: n.render) ++ ']' :: rest) =
      .ok (items, rest) := by
  induction items generalizing fuel with
  | nil =>
    obtain ⟨fuel, rfl⟩ := Nat.exists_eq_add_one_of_ne_zero (by omega : fuel ≠ 0)
    rw [moreItems, List.flatMap_nil, List.nil_append, skipBlanks_cons (by decide)]
    rfl
  | cons n items ih =>
    obtain ⟨fuel, rfl⟩ := Nat.exists_eq_add_one_of_ne_zero (by omega : fuel ≠ 0)
    rw [List.forall_mem_cons] at h
    rw [List.flatMap_cons, List.length_append, List.length_cons] at hfuel
    rw [moreItems, List.flatMap_cons, List.cons_append, List.cons_append, List.append_assoc,
      skipBlanks_cons (by decide)]
    dsimp only
    rw [if_pos rfl, h.1 _ (closes_items items rest)]
    dsimp only
    rw [ih h.2 (by omega)]

/-- A list is read back from what stands behind its opening bracket. -/
theorem list_render {items : List Node} (hne : items ≠ []) (h : ∀ n ∈ items, Reads inner n)
    (rest : List Char) :
    list inner (Node.renderItems items ++ ']' :: rest) = .ok (.list items, rest) := by
  obtain ⟨n, items, rfl⟩ := List.exists_cons_of_ne_nil hne
  rw [List.forall_mem_cons] at h
  rw [list, Node.renderItems_cons, List.append_assoc, h.1 _ (closes_items items rest)]
  dsimp only
  rw [moreItems_render h.2 rest (by rw [List.length_append]; omega)]

theorem entryName_quote (name : String) (rest : List Char) :
    entryName (quote name ++ rest) = .ok (name, rest) := by
  rw [entryName, quote, List.cons_append, skipBlanks_cons (by decide), List.append_assoc]
  exact quotedName_escape name rest

theorem entries_render {es : List (String × Node)} (hne : es ≠ []) (h : ∀ e ∈ es, Reads inner e.2)
    (rest : List Char) {fuel : Nat} (hfuel : (Node.renderEntries es).length < fuel) :
    entries inner fuel (Node.renderEntries es ++ '\x7d' :: rest) = .ok (es, rest) := by
  induction es generalizing fuel with
  | nil => exact absurd rfl hne
  | cons e es ih =>
    obtain ⟨name, n⟩ := e
    obtain ⟨fuel, rfl⟩ := Nat.exists_eq_add_one_of_ne_zero (by omega : fuel ≠ 0)
    rw [List.forall_mem_cons] at h
    cases es with
    | nil =>
      rw [Node.renderEntries, List.append_assoc, entries, entryName_quote]
      dsimp only
      rw [List.cons_append, expect_cons ':' (by decide)]
      dsimp only
      rw [h.1 _ (closes_cons (by decide) rest)]
      dsimp only
      rw [skipBlanks_cons (by decide)]
      rfl
    | cons e es =>
      simp only [Node.renderEntries, List.length_append, List.length_cons] at hfuel
      rw [Node.renderEntries, List.append_assoc, entries, entryName_quote]
      dsimp only
      rw [List.cons_append, expect_cons ':' (by decide)]
      dsimp only
      rw [List.append_assoc, List.cons_append, h.1 _ (closes_cons (by decide) _)]
      dsimp only
      rw [skipBlanks_cons (by decide)]
      dsimp only
      rw [if_pos rfl, ih (List.cons_ne_nil _ _) h.2 (by omega)]

/-- A hash is read back from what stands behind its opening brace. -/
theorem hash_render {es : List (String × Node)} (hne : es ≠ []) (h : ∀ e ∈ es, Reads inner e.2)
    (rest : List Char) :
    hash inner (Node.renderEntries es ++ '\x7d' :: rest) = .ok (.hash es, rest) := by
  rw [hash, entries_render hne h rest (by rw [List.length_append]; omega)]

theorem identifier_decoderName (rest : List Char) :
    identifier (Node.decoderName ++ '(' :: rest) =
      (String.ofList Node.decoderName, '(' :: rest) := by
  have hname : ∀ c ∈ Node.decoderName, continuesName c = true := List.all_eq_true.mp rfl
  rw [identifier, List.takeWhile_append_of_pos hname, List.dropWhile_append_of_pos hname,
    List.takeWhile_cons_of_neg (by decide), List.dropWhile_cons_of_neg (by decide),
    List.append_nil]

theorem nameOrFunction_render {argument : Node} (h : Reads inner argument) (rest : List Char) :
    nameOrFunction inner (Node.decoderName ++ '(' :: (argument.render ++ ')' :: rest)) =
      .ok (.decoded argument, rest) := by
  rw [nameOrFunction, identifier_decoderName]
  dsimp only
  rw [skipBlanks_cons (by decide)]
  dsimp only
  rw [if_pos rfl, function, if_neg (by simp), expect_cons '(' (by decide)]
  dsimp only
  rw [h _ (closes_cons (by decide) rest)]
  dsimp only
  rw [expect_cons ')' (by decide)]

/-- Every well-formed node with a shorter text is read back. -/
def ReadsShorter (r : Rule Node) (n : Node) : Prop :=
  ∀ m : Node, m.wellFormed = true → m.render.length < n.render.length → Reads r m

section

variable {n left right : Node}

theorem ReadsShorter.items {items : List Node} (h : ReadsShorter inner (.list items))
    (hitems : ∀ n ∈ items, n.wellFormed = true) : ∀ n ∈ items, Reads inner n :=
  fun n hn => h n (hitems n hn) (Node.length_render_item hn)

theorem ReadsShorter.entries {es : List (String × Node)} (h : ReadsShorter inner (.hash es))
    (hes : ∀ e ∈ es, e.2.wellFormed = true) : ∀ e ∈ es, Reads inner e.2 :=
  fun e he => h e.2 (hes e he) (Node.length_render_entry he)

theorem primary_index {i : Int} (hi : Word.InRange i) (rest : List Char) :
    primary inner ((Node.index i).render ++ rest) = .ok (.index i, rest) := by
  rw [Node.render, List.cons_append, List.append_assoc, primary, skipBlanks_cons (by decide)]
  dsimp only [List.cons_append, List.nil_append]
  rw [if_pos rfl, looksLikeIndex_integerText, if_pos rfl, index_integerText hi]

theorem primary_list {items : List Node} (hn : (Node.list items).wellFormed = true)
    (h : ReadsShorter inner (.list items)) (rest : List Char) :
    primary inner ((Node.list items).render ++ rest) = .ok (.list items, rest) := by
  obtain ⟨hne, hitems⟩ := Node.wellFormed_list.mp hn
  rw [Node.render, List.cons_append, List.append_assoc, primary, skipBlanks_cons (by decide)]
  dsimp only [List.cons_append, List.nil_append]
  rw [if_pos rfl, if_neg ?_, list_render hne (h.items hitems)]
  obtain ⟨m, ms, rfl⟩ := List.exists_cons_of_ne_nil hne
  rw [Node.renderItems_cons, List.append_assoc, Node.looksLikeIndex_render]
  exact Bool.false_ne_true

/-- What a node other than a chain is written as is read back, whatever follows. -/
theorem primary_render (hn : n.wellFormed = true) (hhead : ∀ left right, n ≠ .chain left right)
    (h : ReadsShorter inner n) (rest : List Char) :
    primary inner (n.render ++ rest) = .ok (n, rest) := by
  cases n with
  | current => rfl
  | field name =>
    rw [Node.render, quote, List.cons_append, List.append_assoc, primary,
      skipBlanks_cons (by decide)]
    dsimp only [List.cons_append, List.nil_append]
    rw [if_neg (by decide), if_neg (by decide), if_pos rfl, quotedName_escape]
  | index i => exact primary_index (of_decide_eq_true hn) rest
  | chain left right => exact absurd rfl (hhead left right)
  | list items => exact primary_list hn h rest
  | hash es =>
    obtain ⟨hne, hes⟩ := Node.wellFormed_hash.mp hn
    rw [Node.render, List.cons_append, List.append_assoc, primary, skipBlanks_cons (by decide)]
    dsimp only [List.cons_append, List.nil_append]
    rw [if_neg (by decide), if_pos rfl, hash_render hne (h.entries hes)]
  | decoded argument =>
    have hargument : Reads inner argument := by
      refine h argument hn ?_
      rw [Node.render, List.length_append, List.length_cons, List.length_append]
      omega
    have htext : (Node.decoded argument).render ++ rest =
        Node.decoderName ++ '(' :: (argument.render ++ ')' :: rest) := by
      simp [Node.render]
    rw [← nameOrFunction_render hargument rest, htext]
    rfl

/-- A step that takes a dot is read back behind it. -/
theorem afterDot_render (hn : n.wellFormed = true) (hstep : n.isStep = true)
    (hindex : ∀ i, n ≠ .index i) (h : ReadsShorter inner n) (rest : List Char) :
    afterDot inner (n.render ++ rest) = .ok (n, rest) := by
  cases n with
  | current => cases hstep
  | field name =>
    rw [Node.render, quote, List.cons_append, List.append_assoc, afterDot,
      skipBlanks_cons (by decide)]
    dsimp only [List.cons_append, List.nil_append]
    rw [if_pos rfl, quotedName_escape]
  | index i => exact absurd rfl (hindex i)
  | chain left right => cases hstep
  | list items =>
    obtain ⟨hne, hitems⟩ := Node.wellFormed_list.mp hn
    rw [Node.render, List.cons_append, List.append_assoc, afterDot, skipBlanks_cons (by decide)]
    dsimp only [List.cons_append, List.nil_append]
    rw [if_neg (by decide), if_pos rfl, list_render hne (h.items hitems)]
  | hash es =>
    obtain ⟨hne, hes⟩ := Node.wellFormed_hash.mp hn
    rw [Node.render, List.cons_append, List.append_assoc, afterDot, skipBlanks_cons (by decide)]
    dsimp only [List.cons_append, List.nil_append]
    rw [if_neg (by decide), if_neg (by decide), if_pos rfl, hash_render hne (h.entries hes)]
  | decoded argument => cases hstep

/-- A step is read back behind any node, one step of fuel being taken. -/
theorem steps_render (hright : right.wellFormed = true) (hstep : right.isStep = true)
    (h : ReadsShorter inner right) (fuel : Nat) (rest : List Char) :
    steps inner (fuel + 1) left (Node.dot right ++ (right.render ++ rest)) =
      steps inner fuel (.chain left right) rest := by
  by_cases hindex : ∃ i, right = .index i
  · obtain ⟨i, rfl⟩ := hindex
    rw [Node.dot, List.nil_append, Node.render, List.cons_append, List.append_assoc, steps,
      skipBlanks_cons (by decide)]
    dsimp only [List.cons_append, List.nil_append]
    rw [if_neg (by decide), if_pos rfl, index_integerText (of_decide_eq_true hright)]
  · rw [not_exists] at hindex
    rw [Node.dot.eq_2 right hindex, List.cons_append, List.nil_append, steps,
      skipBlanks_cons (by decide)]
    dsimp only
    rw [if_pos rfl, afterDot_render hright hstep hindex h]

/-- From a text that starts with the text of a node the node is read, and then the steps that the
rest starts with. -/
theorem expressionWith_render (hn : n.wellFormed = true) (h : ReadsShorter inner n)
    (rest : List Char) : ∃ fuel, rest.length < fuel ∧
      expressionWith inner (n.render ++ rest) = steps inner fuel n rest := by
  induction n using Node.induction generalizing rest with
  | chain left right ih _ =>
    obtain ⟨hleft, hstep, hright⟩ := Node.wellFormed_chain.mp hn
    have hlength : (Node.chain left right).render.length =
        left.render.length + ((Node.dot right).length + right.render.length) := by
      simp [Node.render]
    have hright_pos : 0 < right.render.length := by
      obtain ⟨c, cs, hc, -⟩ := right.render_head
      simp [hc]
    have hleft_pos : 0 < left.render.length := by
      obtain ⟨c, cs, hc, -⟩ := left.render_head
      simp [hc]
    obtain ⟨fuel, hfuel, hread⟩ := ih hleft
      (fun m hm hlt => h m hm (by omega)) (Node.dot right ++ (right.render ++ rest))
    rw [List.length_append, List.length_append] at hfuel
    obtain ⟨fuel, rfl⟩ := Nat.exists_eq_add_one_of_ne_zero (by omega : fuel ≠ 0)
    refine ⟨fuel, by omega, ?_⟩
    rw [Node.render, List.append_assoc, List.append_assoc, hread]
    exact steps_render hright hstep (fun m hm hlt => h m hm (by omega)) fuel rest
  | _ =>
    refine ⟨_, Nat.lt_succ_self _, ?_⟩
    rw [expressionWith, primary_render hn nofun h rest]

end

theorem steps_closes (fuel : Nat) (n : Node) {rest : List Char} (h : Closes rest) :
    steps inner (fuel + 1) n rest = .ok (n, rest) := by
  cases rest with
  | nil => rfl
  | cons c rest =>
    obtain ⟨hblank, hdot, hbracket⟩ := h c rfl
    rw [steps, skipBlanks_cons hblank]
    dsimp only
    rw [if_neg hdot, if_neg hbracket]

/-- A well-formed node is read back, if its text is shorter than the reader may nest. -/
theorem expression_render {depth : Nat} {n : Node} (hn : n.wellFormed = true)
    (hdepth : n.render.length < depth) : Reads (expression depth) n := by
  induction depth generalizing n with
  | zero => cases hdepth
  | succ depth ih =>
    intro rest hrest
    obtain ⟨fuel, hfuel, hread⟩ :=
      expressionWith_render hn (fun m hm hlt => ih hm (by omega)) rest
    obtain ⟨fuel, rfl⟩ := Nat.exists_eq_add_one_of_ne_zero (by omega : fuel ≠ 0)
    rw [expression, hread, steps_closes fuel n hrest]

/-! ### Whole texts -/

theorem parseNode_render {n : Node} (hn : n.wellFormed = true) :
    parseNode n.render = .ok n := by
  have hread := expression_render hn (Nat.lt_succ_self n.render.length) [] nofun
  have hskip := n.skipBlanks_render []
  rw [List.append_nil] at hread hskip
  obtain ⟨c, cs, hc, -⟩ := n.render_head
  rw [parseNode, hskip]
  rw [hc] at hread ⊢
  dsimp only
  rw [hread]
  rfl

/-- **A well-formed node is read back from its text, every node that is read is well formed, and so
an expression that is accepted, written out and read again stands for the same node.** -/
theorem parse_render_inverse :
    (∀ n : Node, n.wellFormed = true →
      parse (String.ofList n.render) = .ok ⟨String.ofList n.render, n⟩) ∧
    ∀ source s, parse source = .ok s →
      s.node.wellFormed = true ∧
        parse (String.ofList s.node.render) = .ok ⟨String.ofList s.node.render, s.node⟩ := by
  have back : ∀ n : Node, n.wellFormed = true →
      parse (String.ofList n.render) = .ok ⟨String.ofList n.render, n⟩ := by
    intro n hn
    rw [parse, String.toList_ofList, parseNode_render hn]
  refine ⟨back, fun source s h => ?_⟩
  obtain ⟨-, hn⟩ := parse_formed h
  exact ⟨hn, back s.node hn⟩

/-- A node with brackets of every kind. -/
def bracketed : Node :=
  .chain
    (.chain (.chain (.decoded (.field "body")) (.index (-9223372036854775808)))
      (.list [.field "a\"]", .chain .current (.index 0)]))
    (.hash [("\\", .current), ("", .field "é")])

theorem bracketed_read_back :
    bracketed.wellFormed = true ∧
      String.ofList bracketed.render = "powertools_json(\"body\")[-9223372036854775808]" ++
        ".[\"a\\\"]\",@[0]].\x7b\"\\\\\":@,\"\":\"é\"\x7d" ∧
      parse (String.ofList bracketed.render) = .ok ⟨String.ofList bracketed.render, bracketed⟩ ∧
      ∃ s, parse " \"a\" . [ @ , \"b\" ]" = .ok s ∧
        parse (String.ofList s.node.render) = .ok ⟨String.ofList s.node.render, s.node⟩ := by
  refine ⟨by decide, by decide, parse_render_inverse.1 bracketed (by decide), ?_⟩
  have hread : parse " \"a\" . [ @ , \"b\" ]" =
      .ok ⟨" \"a\" . [ @ , \"b\" ]", .chain (.field "a") (.list [.current, .field "b"])⟩ := by cbv
  exact ⟨_, hread, (parse_render_inverse.2 _ _ hread).2⟩

end Selector

end AtMostOnce
