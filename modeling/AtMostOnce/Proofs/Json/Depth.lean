/-
What is stored is replayed, as deep as a text may nest.

The reader undoes the printer part by part: a number whose digits fit 64 bits is taken up to the
first character that no number has, a literal up to its closing quote, and the members of an
object go back into key order, in which they were written.  All that can go wrong is that the
reader opens one bracket less than the value has, so the text of a value is read back as the
value exactly if the reader may go as deep as the value nests, and is refused as too deep
otherwise (`value_render`).
-/
import AtMostOnce.Encoding
import AtMostOnce.Proofs.Decimal
import AtMostOnce.Proofs.Json.Canonical
import AtMostOnce.Proofs.Json.Reader

namespace AtMostOnce.Json

/-! ### What is kept exactly -/

/-- An integer that 64 bits hold, with a sign or without. -/
def Number.Exact : Number → Prop
  | .integer n => -9223372036854775808 ≤ n ∧ n ≤ 18446744073709551615
  | .double _ => False

namespace Value

/-- Every object, at every depth, lists its members in key order, no key twice. -/
inductive Ordered : Value → Prop
  | null : Ordered .null
  | bool (b : Bool) : Ordered (.bool b)
  | number (n : Number) : Ordered (.number n)
  | string (s : String) : Ordered (.string s)
  | array {items : List Value} (h : ∀ v ∈ items, Ordered v) : Ordered (.array items)
  | object {ms : Members} (sorted : ms.Sorted) (h : ∀ m ∈ ms, Ordered m.2) : Ordered (.object ms)

mutual

/-- How many arrays and objects stand within one another. -/
def depth : Value → Nat
  | array items => depthItems items + 1
  | object ms => depthMembers ms + 1
  | _ => 0

/-- The depth of the deepest item. -/
def depthItems : List Value → Nat
  | [] => 0
  | v :: rest => max (depth v) (depthItems rest)

/-- The depth of the deepest member. -/
def depthMembers : List (String × Value) → Nat
  | [] => 0
  | (_, v) :: rest => max (depth v) (depthMembers rest)

end

theorem depthItems_le {items : List Value} {d : Nat} :
    depthItems items ≤ d ↔ ∀ v ∈ items, v.depth ≤ d := by
  induction items with
  | nil => simp [depthItems]
  | cons v items ih => rw [depthItems, Nat.max_le, ih, List.forall_mem_cons]

theorem depthMembers_le {ms : Members} {d : Nat} :
    depthMembers ms ≤ d ↔ ∀ m ∈ ms, m.2.depth ≤ d := by
  induction ms with
  | nil => simp [depthMembers]
  | cons m ms ih =>
    obtain ⟨key, v⟩ := m
    rw [depthMembers, Nat.max_le, ih, List.forall_mem_cons]

end Value

/-! ### Numbers -/

theorem isNumeral_of_isDigit {c : Char} (h : c.isDigit = true) : isNumeral c = true :=
  Text.forall_digit (p := (isNumeral · = true)) (by decide) h

/-- Only zero is written with a zero in front. -/
theorem eq_zero_of_toDigits {n : Nat} {ds : List Char} (h : Nat.toDigits 10 n = '0' :: ds) :
    n = 0 ∧ ds = [] := by
  induction n using Nat.strongRecOn generalizing ds with
  | ind n ih =>
    rw [Nat.toDigits_eq_if (by decide)] at h
    split at h
    · obtain ⟨hdigit, hds⟩ := List.cons.inj h
      exact ⟨Nat.digitChar_eq_zero.mp hdigit, hds.symm⟩
    · obtain ⟨d, es, hes, -⟩ := Text.toDigits_cases (n / 10)
      rw [hes] at h
      rw [(List.cons.inj h).1] at hes
      have := (ih (n / 10) (by omega) hes).1
      omega

theorem le_ofDigitChars (ds : List Char) (n : Nat) : n ≤ Nat.ofDigitChars 10 ds n := by
  induction ds generalizing n with
  | nil => exact Nat.le_refl n
  | cons d ds ih =>
    rw [Nat.ofDigitChars_cons]
    have := ih (10 * n + (d.toNat - '0'.toNat))
    omega

section

variable {rest : List Char}

theorem Stops.not_startsWithDigit (h : Stops rest) : startsWithDigit rest = false := by
  cases rest with
  | nil => rfl
  | cons c rest =>
    refine Bool.eq_false_iff.mpr fun hdigit => ?_
    have hc := h c rfl
    rw [isNumeral_of_isDigit hdigit] at hc
    cases hc

theorem Stops.ne_cons (h : Stops rest) {c : Char} (hc : isNumeral c = true) (cs : List Char) :
    rest ≠ c :: cs := by
  rintro rfl
  rw [h c rfl] at hc
  cases hc

theorem afterInteger_stops (h : Stops rest) (positive : Bool) (sig : Nat) :
    afterInteger positive sig rest = .ok (wholeNumber positive sig, rest) := by
  unfold afterInteger
  split
  · exact absurd rfl (h.ne_cons (by decide) _)
  · exact absurd rfl (h.ne_cons (by decide) _)
  · exact absurd rfl (h.ne_cons (by decide) _)
  · rfl

/-- Digits are taken up to their end if the number that they stand for fits 64 bits. -/
theorem significand_digits {ds : List Char} (hds : ∀ d ∈ ds, d.isDigit = true) (hrest : Stops rest)
    {sig : Nat} (hsig : Nat.ofDigitChars 10 ds sig ≤ maxSignificand) :
    significand sig (ds ++ rest) = (Nat.ofDigitChars 10 ds sig, rest) := by
  induction ds generalizing sig with
  | nil =>
    cases rest with
    | nil => rfl
    | cons c rest =>
      have hc : c.isDigit = false := hrest.not_startsWithDigit
      rw [List.nil_append, significand, hc]
      rfl
  | cons d ds ih =>
    rw [List.forall_mem_cons] at hds
    rw [Nat.ofDigitChars_cons, Nat.mul_comm 10] at hsig ⊢
    have hle : sig * 10 + digitValue d ≤ maxSignificand := (le_ofDigitChars ds _).trans hsig
    rw [List.cons_append, significand, hds.1, decide_eq_true hle]
    exact ih hds.2 hsig

/-- The digits of a number are taken for the number, up to the first character of no number. -/
theorem number_toDigits {n : Nat} (hn : n ≤ maxSignificand) (hrest : Stops rest)
    (positive : Bool) :
    number positive (Nat.toDigits 10 n ++ rest) = .ok (wholeNumber positive n, rest) := by
  obtain ⟨d, ds, hds, hdigits⟩ := Text.toDigits_cases n
  have hvalue : Nat.ofDigitChars 10 (d :: ds) 0 = n := hds ▸ Nat.ofDigitChars_ten_toDigits
  rw [List.forall_mem_cons] at hdigits
  rw [hds, List.cons_append, number]
  by_cases hzero : d = '0'
  · subst hzero
    obtain ⟨rfl, rfl⟩ := eq_zero_of_toDigits hds
    rw [if_pos rfl, List.nil_append, hrest.not_startsWithDigit]
    exact afterInteger_stops hrest positive 0
  · rw [Nat.ofDigitChars_cons, Nat.mul_zero, Nat.zero_add] at hvalue
    have hsig : significand (digitValue d) (ds ++ rest) = _ :=
      significand_digits hdigits.2 hrest (hvalue.trans_le hn)
    rw [if_neg hzero, if_pos hdigits.1, hsig]
    dsimp only
    rw [hrest.not_startsWithDigit, show Nat.ofDigitChars 10 ds (digitValue d) = n from hvalue]
    exact afterInteger_stops hrest positive n

theorem valueWith_number {n : Number} (h : n.Exact) (hrest : Stops rest)
    (inner : Option (Reader Value)) :
    valueWith inner (n.render ++ rest) = .ok (.number n, rest) := by
  cases n with
  | double => exact h.elim
  | integer n =>
    obtain ⟨hmin, hmax⟩ := h
    rw [Number.render, Text.integerText]
    split
    · have hnumber := number_toDigits (n := n.natAbs) (by unfold maxSignificand; omega) hrest false
      have hwhole : wholeNumber false n.natAbs = .integer n := by
        rw [wholeNumber, if_neg Bool.false_ne_true, if_pos ⟨by omega, by omega⟩]
        congr 1
        omega
      rw [List.cons_append, valueWith, skipBlanks_cons (by decide)]
      dsimp only
      rw [if_neg (by decide), if_neg (by decide), if_neg (by decide), if_pos rfl, mapReader,
        hnumber, hwhole]
    · have hnumber := number_toDigits (n := n.natAbs) (by unfold maxSignificand; omega) hrest true
      have hwhole : wholeNumber true n.natAbs = .integer n := by
        rw [wholeNumber, if_pos rfl]
        congr 1
        omega
      obtain ⟨d, ds, hds, hdigits⟩ := Text.toDigits_cases n.natAbs
      have hd : d.isDigit = true := hdigits d List.mem_cons_self
      have hne : ∀ c, c.isDigit = false → d ≠ c := by
        rintro c hc rfl
        rw [hd] at hc
        cases hc
      rw [hds] at hnumber ⊢
      rw [List.cons_append] at hnumber ⊢
      rw [valueWith, skipBlanks_cons (not_isBlank_of_isDigit hd)]
      dsimp only
      rw [if_neg (hne 'n' (by decide)), if_neg (hne 't' (by decide)), if_neg (hne 'f' (by decide)),
        if_neg (hne '-' (by decide)), if_pos hd, mapReader, hnumber, hwhole]

end

/-- Exact numbers are written with the characters of numbers, and no two of them alike. -/
theorem legible_exact : Legible Number.Exact where
  injective m hm n hn h := by
    have hread := valueWith_number hm stops_nil none
    rw [h, valueWith_number hn stops_nil none] at hread
    cases hread
    rfl
  numerals n hn := by
    cases n with
    | double => exact hn.elim
    | integer n =>
      obtain ⟨d, ds, hdigits, htext | htext⟩ := Text.integerText_cases n
      · rw [Number.render, htext]
        exact ⟨List.cons_ne_nil _ _, fun c hc => isNumeral_of_isDigit (hdigits c hc)⟩
      · rw [Number.render, htext]
        exact ⟨List.cons_ne_nil _ _, List.forall_mem_cons.mpr
          ⟨by decide, fun c hc => isNumeral_of_isDigit (hdigits c hc)⟩⟩

/-! ### Scalars -/

section

variable (inner : Option (Reader Value)) (rest : List Char)

theorem valueWith_null : valueWith inner (Value.null.render ++ rest) = .ok (.null, rest) := rfl

theorem valueWith_bool (b : Bool) :
    valueWith inner ((Value.bool b).render ++ rest) = .ok (.bool b, rest) := by
  cases b <;> rfl

theorem valueWith_string (s : String) :
    valueWith inner ((Value.string s).render ++ rest) = .ok (.string s, rest) := by
  rw [Value.render, quote, List.cons_append, List.append_assoc, valueWith,
    skipBlanks_cons (by decide)]
  dsimp only
  rw [if_neg (by decide), if_neg (by decide), if_neg (by decide), if_neg (by decide),
    if_neg (by decide), if_pos rfl, mapReader, List.singleton_append, stringLiteral_escape]

end

/-! ### Arrays and objects -/

/-- What a reader makes of a text that starts with the text of `a`: it takes `a` off and leaves the
rest, or it refuses the text as too deep, which it does exactly if `a` does not fit. -/
inductive Recovers {α : Type} (fits : Prop) (a : α) (rest : List Char) :
    Except Fault (α × List Char) → Prop
  | taken (h : fits) : Recovers fits a rest (.ok (a, rest))
  | refused {f : Fault} (h : ¬ fits) (hcause : f.cause = .tooDeep) : Recovers fits a rest (.error f)

theorem Recovers.congr {α : Type} {fits fits' : Prop} {a : α} {rest : List Char}
    {x : Except Fault (α × List Char)} (h : Recovers fits a rest x) (hfits : fits ↔ fits') :
    Recovers fits' a rest x := propext hfits ▸ h

/-- What is written behind the first of several: the others, each with a comma in front, and the
closing bracket. -/
def othersText {α : Type} (text : α → List Char) (close : Char) (as : List α) (rest : List Char) :
    List Char :=
  as.flatMap (fun a => ',' :: text a) ++ close :: rest

/-- With a comma in front of each, there are fewer than the text has characters. -/
theorem length_lt_othersText {α : Type} (text : α → List Char) (close : Char) (as : List α)
    (rest : List Char) : as.length < (othersText text close as rest).length := by
  unfold othersText
  induction as with
  | nil => exact Nat.succ_pos _
  | cons a as ih =>
    rw [List.flatMap_cons, List.append_assoc, List.length_append, List.length_cons,
      List.length_cons]
    omega

/-- The reader recovers the value, whatever follows it, if it nests no deeper than `d`. -/
def Restores (d : Nat) (r : Reader Value) (v : Value) : Prop :=
  ∀ rest, Stops rest → Recovers (v.depth ≤ d) v rest (r (v.render ++ rest))

section

open Value

variable {d : Nat} {item : Reader Value} {v : Value} {rest : List Char}

/-- No value is written with a blank or a bracket that closes in front. -/
theorem render_first (hv : v.Over Number.Exact) (rest : List Char) :
    ∃ c cs, v.render ++ rest = c :: cs ∧ isBlank c = false ∧ c ≠ ']' := by
  obtain ⟨c, cs, hc, hkind⟩ := render_head legible_exact hv
  refine ⟨c, cs ++ rest, by rw [hc, List.cons_append], ?_, ?_⟩
  · refine Bool.eq_false_iff.mpr fun hblank => ?_
    simp only [isBlank, Bool.or_eq_true, decide_eq_true_eq] at hblank
    rcases hblank with ((rfl | rfl) | rfl) | rfl <;> cases hkind
  · rintro rfl
    cases hkind

theorem nextItem_first (hv : v.Over Number.Exact) (rest : List Char) :
    nextItem true (v.render ++ rest) = .ok (true, v.render ++ rest) := by
  obtain ⟨c, cs, hc, hblank, hclose⟩ := render_first hv rest
  rw [hc, nextItem, skipBlanks_cons hblank]
  dsimp only
  rw [if_neg hclose, if_pos rfl]

theorem nextItem_comma (hv : v.Over Number.Exact) (rest : List Char) :
    nextItem false (',' :: (v.render ++ rest)) = .ok (true, v.render ++ rest) := by
  obtain ⟨c, cs, hc, hblank, hclose⟩ := render_first hv rest
  rw [hc, nextItem, skipBlanks_cons (by decide)]
  dsimp only
  rw [if_neg (by decide), if_neg Bool.false_ne_true, if_pos rfl, skipBlanks_cons hblank]
  dsimp only
  rw [if_neg hclose]

/-- One item more is recovered, if the ones behind it are. -/
theorem listItems_item {items : List Value} {fuel : Nat} {first : Bool} {cs : List Char}
    (hv : Restores d item v)
    (hnext : nextItem first cs = .ok (true, v.render ++ othersText render ']' items rest))
    (hitems : Recovers (∀ w ∈ items, w.depth ≤ d) items (']' :: rest)
      (listItems item fuel false (othersText render ']' items rest))) :
    Recovers (∀ w ∈ v :: items, w.depth ≤ d) (v :: items) (']' :: rest)
      (listItems item (fuel + 1) first cs) := by
  have hitem := hv (othersText render ']' items rest) (stops_items (by decide) items rest)
  rw [listItems, hnext]
  dsimp only
  generalize item (v.render ++ othersText render ']' items rest) = x at hitem ⊢
  cases hitem with
  | refused hdeep hcause => exact .refused (fun hall => hdeep (hall v List.mem_cons_self)) hcause
  | taken hfits =>
    dsimp only
    generalize listItems item fuel false (othersText render ']' items rest) = y at hitems ⊢
    cases hitems with
    | refused hdeep hcause =>
      exact .refused (fun hall => hdeep (List.forall_mem_cons.mp hall).2) hcause
    | taken hall => exact .taken (List.forall_mem_cons.mpr ⟨hfits, hall⟩)

theorem listItems_others {items : List Value} {fuel : Nat}
    (h : ∀ w ∈ items, w.Over Number.Exact ∧ Restores d item w) (hfuel : items.length < fuel) :
    Recovers (∀ w ∈ items, w.depth ≤ d) items (']' :: rest)
      (listItems item fuel false (othersText render ']' items rest)) := by
  induction items generalizing fuel with
  | nil =>
    obtain ⟨fuel, rfl⟩ := Nat.exists_eq_add_one_of_ne_zero (by omega : fuel ≠ 0)
    exact .taken (List.forall_mem_nil _)
  | cons w items ih =>
    obtain ⟨fuel, rfl⟩ := Nat.exists_eq_add_one_of_ne_zero (by omega : fuel ≠ 0)
    obtain ⟨⟨hexact, hw⟩, hitems⟩ := List.forall_mem_cons.mp h
    refine listItems_item hw ?_ (ih hitems (Nat.lt_of_succ_lt_succ hfuel))
    rw [othersText, List.flatMap_cons, List.append_assoc]
    exact nextItem_comma hexact _

theorem arrayOf_renderItems {items : List Value}
    (h : ∀ w ∈ items, w.Over Number.Exact ∧ Restores d item w) (rest : List Char) :
    Recovers (∀ w ∈ items, w.depth ≤ d) (.array items) rest
      (arrayOf item (renderItems items ++ ']' :: rest)) := by
  cases items with
  | nil => exact .taken (List.forall_mem_nil _)
  | cons v items =>
    obtain ⟨⟨hexact, hv⟩, hitems⟩ := List.forall_mem_cons.mp h
    have htext : renderItems (v :: items) ++ ']' :: rest =
        v.render ++ othersText render ']' items rest := by
      rw [renderItems_cons, List.append_assoc, othersText]
    have hfuel : items.length < (v.render ++ othersText render ']' items rest).length :=
      (length_lt_othersText render ']' items rest).trans_le (by simp)
    have hall := listItems_item hv (nextItem_first hexact (othersText render ']' items rest))
      (listItems_others hitems hfuel)
    rw [htext, arrayOf]
    generalize listItems item ((v.render ++ othersText render ']' items rest).length + 1) true
      (v.render ++ othersText render ']' items rest) = x at hall ⊢
    cases hall with
    | refused hdeep hcause => exact .refused hdeep hcause
    | taken hfits => exact .taken hfits

/-- A member without the opening quote of its key. -/
def memberText (m : String × Value) : List Char :=
  escape m.1.toList ++ '"' :: ':' :: m.2.render

theorem renderMember_eq (m : String × Value) : renderMember m = '"' :: memberText m := by
  simp [renderMember, memberText, quote]

/-- One member more is recovered, if the ones behind it are. -/
theorem objectMembers_member {m : String × Value} {ms : Members} {fuel : Nat} {first : Bool}
    {cs : List Char} (hm : Restores d item m.2)
    (hnext : nextMember first cs =
      .ok (true, memberText m ++ othersText renderMember '\x7d' ms rest))
    (hms : Recovers (∀ n ∈ ms, n.2.depth ≤ d) ms ('\x7d' :: rest)
      (objectMembers item fuel false (othersText renderMember '\x7d' ms rest))) :
    Recovers (∀ n ∈ m :: ms, n.2.depth ≤ d) (m :: ms) ('\x7d' :: rest)
      (objectMembers item (fuel + 1) first cs) := by
  have hitem := hm (othersText renderMember '\x7d' ms rest) (stops_items (by decide) ms rest)
  have hcolon : ∀ cs, colon (':' :: cs) = .ok ((), cs) := fun _ => rfl
  rw [objectMembers, hnext]
  dsimp only
  rw [memberText, List.append_assoc, List.cons_append, stringLiteral_escape]
  dsimp only
  rw [List.cons_append, hcolon]
  dsimp only
  generalize item (m.2.render ++ othersText renderMember '\x7d' ms rest) = x at hitem ⊢
  cases hitem with
  | refused hdeep hcause => exact .refused (fun hall => hdeep (hall m List.mem_cons_self)) hcause
  | taken hfits =>
    dsimp only
    generalize objectMembers item fuel false (othersText renderMember '\x7d' ms rest) = y
      at hms ⊢
    cases hms with
    | refused hdeep hcause =>
      exact .refused (fun hall => hdeep (List.forall_mem_cons.mp hall).2) hcause
    | taken hall => exact .taken (List.forall_mem_cons.mpr ⟨hfits, hall⟩)

theorem objectMembers_others {ms : Members} {fuel : Nat} (h : ∀ m ∈ ms, Restores d item m.2)
    (hfuel : ms.length < fuel) :
    Recovers (∀ m ∈ ms, m.2.depth ≤ d) ms ('\x7d' :: rest)
      (objectMembers item fuel false (othersText renderMember '\x7d' ms rest)) := by
  induction ms generalizing fuel with
  | nil =>
    obtain ⟨fuel, rfl⟩ := Nat.exists_eq_add_one_of_ne_zero (by omega : fuel ≠ 0)
    exact .taken (List.forall_mem_nil _)
  | cons m ms ih =>
    obtain ⟨fuel, rfl⟩ := Nat.exists_eq_add_one_of_ne_zero (by omega : fuel ≠ 0)
    obtain ⟨hm, hms⟩ := List.forall_mem_cons.mp h
    refine objectMembers_member hm ?_ (ih hms (Nat.lt_of_succ_lt_succ hfuel))
    rw [othersText, List.flatMap_cons, List.append_assoc, renderMember_eq]
    rfl

theorem objectOf_renderMembers {ms : Members} (sorted : ms.Sorted)
    (h : ∀ m ∈ ms, Restores d item m.2) (rest : List Char) :
    Recovers (∀ m ∈ ms, m.2.depth ≤ d) (.object ms) rest
      (objectOf item (renderMembers ms ++ '\x7d' :: rest)) := by
  cases ms with
  | nil => exact .taken (List.forall_mem_nil _)
  | cons m ms =>
    obtain ⟨hm, hms⟩ := List.forall_mem_cons.mp h
    have htext : renderMembers (m :: ms) ++ '\x7d' :: rest =
        '"' :: (memberText m ++ othersText renderMember '\x7d' ms rest) := by
      rw [renderMembers_cons, List.append_assoc, renderMember_eq, othersText, List.cons_append]
    have hfuel : ms.length <
        ('"' :: (memberText m ++ othersText renderMember '\x7d' ms rest)).length :=
      (length_lt_othersText renderMember '\x7d' ms rest).trans_le (by simp; omega)
    have hnext : nextMember true
        ('"' :: (memberText m ++ othersText renderMember '\x7d' ms rest)) =
          .ok (true, memberText m ++ othersText renderMember '\x7d' ms rest) := rfl
    have hall := objectMembers_member hm hnext (objectMembers_others hms hfuel)
    rw [htext, objectOf]
    generalize objectMembers item
      (('"' :: (memberText m ++ othersText renderMember '\x7d' ms rest)).length + 1) true
      ('"' :: (memberText m ++ othersText renderMember '\x7d' ms rest)) = x at hall ⊢
    cases hall with
    | refused hdeep hcause => exact .refused hdeep hcause
    | taken hfits =>
      have hself := sorted.ofList_eq
      dsimp only
      rw [hself]
      exact .taken hfits

end

/-! ### Values -/

theorem value_eq_valueWith (d : Nat) : ∃ inner, value d = valueWith inner := by
  cases d with
  | zero => exact ⟨_, rfl⟩
  | succ d => exact ⟨_, rfl⟩

theorem value_array (d : Nat) (items : List Value) (rest : List Char) :
    value (d + 1) ((Value.array items).render ++ rest) =
      arrayOf (value d) (Value.renderItems items ++ ']' :: rest) := by
  rw [Value.render, List.cons_append, List.append_assoc]
  rfl

theorem value_object (d : Nat) (ms : Members) (rest : List Char) :
    value (d + 1) ((Value.object ms).render ++ rest) =
      objectOf (value d) (Value.renderMembers ms ++ '\x7d' :: rest) := by
  rw [Value.render, List.cons_append, List.append_assoc]
  rfl

/-- **The text of a value is read back as the value, or is too deep.** -/
theorem value_render {v : Value} (hexact : v.Over Number.Exact) (hordered : v.Ordered) (d : Nat) :
    Restores d (value d) v := by
  induction v using Value.induction generalizing d with
  | null =>
    intro rest _
    obtain ⟨inner, hinner⟩ := value_eq_valueWith d
    rw [hinner, valueWith_null]
    exact .taken (Nat.zero_le d)
  | bool b =>
    intro rest _
    obtain ⟨inner, hinner⟩ := value_eq_valueWith d
    rw [hinner, valueWith_bool]
    exact .taken (Nat.zero_le d)
  | number n =>
    intro rest hrest
    cases hexact with
    | number hn =>
      obtain ⟨inner, hinner⟩ := value_eq_valueWith d
      rw [hinner, Value.render, valueWith_number hn hrest]
      exact .taken (Nat.zero_le d)
  | string s =>
    intro rest _
    obtain ⟨inner, hinner⟩ := value_eq_valueWith d
    rw [hinner, valueWith_string]
    exact .taken (Nat.zero_le d)
  | array items ih =>
    intro rest _
    cases d with
    | zero => exact .refused (Nat.not_succ_le_zero _) rfl
    | succ d =>
      cases hexact with
      | array hexact =>
        cases hordered with
        | array hordered =>
          have hitems := arrayOf_renderItems
            (fun w hw => ⟨hexact w hw, ih w hw (hexact w hw) (hordered w hw) d⟩) rest
          rw [value_array]
          exact hitems.congr (Value.depthItems_le.symm.trans Nat.succ_le_succ_iff.symm)
  | object ms ih =>
    intro rest _
    cases d with
    | zero => exact .refused (Nat.not_succ_le_zero _) rfl
    | succ d =>
      cases hexact with
      | object hexact =>
        cases hordered with
        | object sorted hordered =>
          have hms := objectOf_renderMembers sorted
            (fun m hm => ih m hm (hexact m hm) (hordered m hm) d) rest
          rw [value_object]
          exact hms.congr (Value.depthMembers_le.symm.trans Nat.succ_le_succ_iff.symm)

/-- A list within a list, so many times. -/
def nested : Nat → Value
  | 0 => .null
  | d + 1 => .array [nested d]

theorem nested_spec (d : Nat) :
    (nested d).Over Number.Exact ∧ (nested d).Ordered ∧ (nested d).depth = d := by
  induction d with
  | zero => exact ⟨.null, .null, rfl⟩
  | succ d ih =>
    obtain ⟨hexact, hordered, hdepth⟩ := ih
    exact ⟨.array (List.forall_mem_singleton.mpr hexact),
      .array (List.forall_mem_singleton.mpr hordered),
      by simp [nested, Value.depth, Value.depthItems, hdepth]⟩

end AtMostOnce.Json

namespace AtMostOnce.Encoding

open AtMostOnce.Json

/-- **What is stored is replayed, unless it nests too deep.**  A value without fractions is always
stored, and its text is replayed as the value exactly if no more than 127 arrays and objects stand
within one another; a deeper one cannot be replayed. -/
theorem json_replays_iff {v : Value} (hexact : v.Over Number.Exact) (hordered : v.Ordered)
    (storing replaying : EncodingContext) :
    ∃ text, (json .any).store storing v = .ok text ∧
      ((json .any).replay replaying text = .ok v ↔ v.depth ≤ 127) ∧
      (127 < v.depth → ∃ fault : Fault, fault.cause = .tooDeep ∧
        (json .any).replay replaying text = .error ⟨.replaying, fault.message text⟩) := by
  refine ⟨v.text, rfl, ?_⟩
  have hread := value_render hexact hordered maxDepth [] stops_nil
  rw [List.append_nil] at hread
  have hparse : Format.any.parse v.text = whole (value maxDepth) v.render := by
    rw [Format.parse, Value.text, String.toList_ofList]
    rfl
  dsimp only [json]
  rw [hparse, whole]
  generalize value maxDepth v.render = x at hread ⊢
  cases hread with
  | taken hfits => exact ⟨⟨fun _ => hfits, fun _ => rfl⟩, fun hdeep => absurd hfits hdeep.not_ge⟩
  | refused hdeep hcause =>
    refine ⟨⟨fun hok => ?_, fun hfits => absurd hfits hdeep⟩, fun _ => ⟨_, hcause, rfl⟩⟩
    cases hok

/-- Some call. -/
def checkout : EncodingContext := ⟨⟨"checkout.charge#abc"⟩, "charge"⟩

/-- A receipt with the greatest and the least number, characters to be escaped and an empty
object. -/
def receipt : Value :=
  .object [("id", .number (.integer 18446744073709551615)),
    ("lines", .array
      [.number (.integer (-9223372036854775808)), .string "\"é\\\n\x01😀", .object []])]

/-- The receipt is replayed, and so is a nest of 127 lists; one of 128 lists is stored, but too deep
to be replayed. -/
theorem json_replays_receipt :
    (∃ text, (json .any).store checkout receipt = .ok text ∧
      (json .any).replay checkout text = .ok receipt) ∧
    (∃ text, (json .any).store checkout (nested 127) = .ok text ∧
      (json .any).replay checkout text = .ok (nested 127)) ∧
    ∃ text, (json .any).store checkout (nested 128) = .ok text ∧
      ∃ fault : Fault, fault.cause = .tooDeep ∧
        (json .any).replay checkout text = .error ⟨.replaying, fault.message text⟩ := by
  have hexact : receipt.Over Number.Exact := by
    refine .object (List.forall_mem_cons.mpr ⟨.number ⟨by decide, by decide⟩,
      List.forall_mem_singleton.mpr (.array ?_)⟩)
    exact List.forall_mem_cons.mpr ⟨.number ⟨by decide, by decide⟩,
      List.forall_mem_cons.mpr ⟨.string _,
        List.forall_mem_singleton.mpr (.object (List.forall_mem_nil _))⟩⟩
  have hordered : receipt.Ordered := by
    refine .object (List.pairwise_pair.mpr (by decide)) (List.forall_mem_cons.mpr ⟨.number _,
      List.forall_mem_singleton.mpr (.array ?_)⟩)
    exact List.forall_mem_cons.mpr ⟨.number _,
      List.forall_mem_cons.mpr ⟨.string _,
        List.forall_mem_singleton.mpr (.object .nil (List.forall_mem_nil _))⟩⟩
  obtain ⟨text, hstore, hreplay, -⟩ := json_replays_iff hexact hordered checkout checkout
  obtain ⟨hexact', hordered', hdepth'⟩ := nested_spec 127
  obtain ⟨text', hstore', hreplay', -⟩ := json_replays_iff hexact' hordered' checkout checkout
  obtain ⟨hexact'', hordered'', hdepth''⟩ := nested_spec 128
  obtain ⟨text'', hstore'', -, hdeep''⟩ := json_replays_iff hexact'' hordered'' checkout checkout
  exact ⟨⟨text, hstore, hreplay.mpr (by decide)⟩,
    ⟨text', hstore', hreplay'.mpr hdepth'.le⟩,
    text'', hstore'', hdeep'' (by omega)⟩

end AtMostOnce.Encoding
