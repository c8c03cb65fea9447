/-
The cursor keeps to the source.

Every scan agrees with its rule: from the same place it comes to the same result in front of the
same rest, or to the same fault, and nothing that it marks is outside the source.  What carries
this through the recursion is that the rules leave less than they were given: a bracket hands
`expression` a text shorter than its own, so two budgets for the nesting that are both enough make
no difference (`tracks_expression`), and neither do two budgets for the items of one bracket.

So reading with a cursor never crashes, and comes to what `parse` says (`read_eq`).
-/
import AtMostOnce.Proofs.Selector.Footing

namespace AtMostOnce.Selector

open AtMostOnce.Json
open AtMostOnce.Text (octetsOf lead IsAscii OnAscii flatMap_octetsOf_cons lead_eq_iff
  dropWhile_octets head?_octets onAscii_eq onAscii_isDigit)

/-! ### Indexes in bytes -/

theorem unsigned_octets (cs : List Char) :
    unsigned (cs.flatMap octetsOf) = (unsigned cs).flatMap octetsOf := by
  by_cases hminus : ∃ rest, cs = '-' :: rest
  · obtain ⟨rest, rfl⟩ := hminus
    rfl
  · have hcs : ∀ rest, cs ≠ '-' :: rest := fun rest h => hminus ⟨rest, h⟩
    have hoctets : ∀ rest, cs.flatMap octetsOf ≠ '-' :: rest := by
      intro rest h
      cases cs with
      | nil => cases h
      | cons c cs =>
        rw [flatMap_octetsOf_cons] at h
        have hc := (lead_eq_iff (by decide)).mp (List.cons.inj h).1
        exact hcs cs (by rw [hc])
    rw [unsigned_of_ne hcs, unsigned_of_ne hoctets]

theorem looksLikeIndex_octets (cs : List Char) :
    looksLikeIndex (cs.flatMap octetsOf) = looksLikeIndex cs := by
  have hspace : OnAscii isSpace := onAscii_eq (by decide)
  have hclosing : OnAscii fun c => c = ']' := onAscii_eq (by decide)
  rw [looksLikeIndex_eq, looksLikeIndex_eq, indexAhead, indexAhead, dropWhile_octets hspace,
    unsigned_octets, dropWhile_octets onAscii_isDigit, dropWhile_octets hspace,
    head?_octets onAscii_isDigit, head?_octets hclosing]

namespace Cursor

variable {source : String} {st : State} {cs rest : List Char}

theorem looksLikeIndex_run {c : Char} (h : Stands source (c :: cs) st) (hc : IsAscii c) :
    ∃ st', (looksLikeIndex source).run st = .ok (Selector.looksLikeIndex cs) st' ∧
      Stands source (c :: cs) st' := by
  have hnext := h.advance_ascii hc
  have hle : st.offset + 1 ≤ source.utf8ByteSize := hnext.le
  refine ⟨_, ?_, h.mark (m := .cutBytes (st.offset + 1)) hle⟩
  rw [looksLikeIndex, run_bind_ok (run_offset st), run_bind_ok (run_mark st _), if_pos hle,
    hnext.octets_drop, looksLikeIndex_octets]
  rfl

/-- The sign and the digits are the integer in front. -/
theorem integerPart_run (h : Stands source cs st) :
    ∃ st₁ st₂, (sign source).run st = .ok () st₁ ∧
      (skip source Char.isDigit).run st₁ = .ok () st₂ ∧
      Stands source (integerPart cs).2 st₂ ∧ (integerPart cs).1 ++ (integerPart cs).2 = cs := by
  by_cases hminus : ∃ rest, cs = '-' :: rest
  · obtain ⟨rest, rfl⟩ := hminus
    obtain ⟨st₂, hskip, hat⟩ := (h.advance_ascii (by decide)).skip onAscii_isDigit
    refine ⟨_, st₂, ?_, hskip, hat, congrArg ('-' :: ·) List.takeWhile_append_dropWhile⟩
    rw [sign, run_bind_ok (run_peek st), h.peek]
    rfl
  · have hne : ∀ rest, cs ≠ '-' :: rest := fun rest heq => hminus ⟨rest, heq⟩
    have hpeek : cs.head?.map lead ≠ some '-' := by
      cases cs with
      | nil => nofun
      | cons c cs =>
        intro heq
        exact hne cs (by rw [(lead_eq_iff (by decide)).mp (Option.some.inj heq)])
    obtain ⟨st₂, hskip, hat⟩ := h.skip onAscii_isDigit
    rw [integerPart_of_ne hne]
    refine ⟨st, st₂, ?_, hskip, hat, List.takeWhile_append_dropWhile⟩
    rw [sign, run_bind_ok (run_peek st), h.peek, if_neg hpeek]
    rfl

theorem index_agrees (h : Stands source ('[' :: cs) st) :
    Agrees source (Selector.index cs) ((index source).run st) := by
  refine Agrees.taking h ((placed_index cs).mono (List.suffix_cons _ _)) ?_
  obtain ⟨st₁, hopen, hat⟩ := expect_run h (by decide) (by decide)
  obtain ⟨st₂, hblanks, hat⟩ := hat.skipBlanks
  obtain ⟨st₃, st₄, hsign, hdigits, hrest, hsplit⟩ := integerPart_run hat
  obtain ⟨st₅, hcut, hrest⟩ := (hsplit ▸ hat : Stands source (_ ++ _) st₂).cut hrest
  rw [run_bind_ok hopen, run_bind_ok hblanks, run_bind_ok (run_offset _), run_bind_ok hsign,
    run_bind_ok hdigits, run_bind_ok hcut, String.toList_ofList]
  unfold Selector.index
  dsimp only
  cases Word.ofDigits? (integerPart (skipBlanks cs)).1 with
  | none => exact agrees_stop hrest _
  | some i =>
    refine (expect_agrees (c := ']') (by decide) hrest).bind ?_
    intro _ rest st₆ hend hat
    simp only [hend]
    exact agrees_pure hat

/-! ### Brackets -/

/-- What stands in brackets is read alike on every end of the source of fewer than `bound`
characters. -/
structure Tracks (source : String) (bound : Nat) (inner : Scan Node) (rule : Rule Node) : Prop where
  agrees : ∀ {cs st}, cs.length < bound → Stands source cs st →
    Agrees source (rule cs) (inner.run st)
  placed : Placed rule

section

variable {bound : Nat} {inner : Scan Node} {rule : Rule Node}

theorem moreItems_agrees (h : Tracks source bound inner rule) {fuel budget : Nat}
    (hat : Stands source cs st) (hbound : cs.length ≤ bound) (hfuel : cs.length < fuel)
    (hbudget : cs.length < budget) :
    Agrees source (Selector.moreItems rule fuel cs) ((moreItems source inner budget).run st) := by
  induction fuel generalizing budget cs st with
  | zero => omega
  | succ fuel ih =>
    obtain ⟨budget, rfl⟩ := Nat.exists_eq_add_one_of_ne_zero (by omega : budget ≠ 0)
    have hlength := (skipBlanks_suffix cs).length_le
    unfold Selector.moreItems moreItems
    refine Agrees.look hat ?_ ?_
    · intro st₁ hskip hat
      rw [hskip]
      exact agrees_stop hat _
    · intro c rest st₁ hskip hat
      rw [hskip, List.length_cons] at hlength
      simp only [hskip, lead_eq_iff (show IsAscii ',' by decide),
        lead_eq_iff (show IsAscii ']' by decide)]
      split
      · rename_i hc
        have hat := hat.advance_ascii (by rw [hc]; decide)
        rw [run_bind_ok (run_advance _ _)]
        refine (h.agrees (by omega) hat).bind ?_
        intro n rest' st₂ hitem hat
        have hshorter := (h.placed.leaves hitem).shorter
        simp only [hitem]
        refine (ih hat (by omega) (by omega) (by omega)).bind ?_
        intro ns rest'' st₃ hmore hat
        simp only [hmore]
        exact agrees_pure hat
      split
      · rename_i hc
        exact agrees_advance hat (by rw [hc]; decide)
      · exact agrees_stop hat _

theorem list_agrees (h : Tracks source bound inner rule) (hat : Stands source ('[' :: cs) st)
    (hbound : cs.length < bound) :
    Agrees source (Selector.list rule cs) ((list source inner).run st) := by
  refine Agrees.taking hat ((placed_list h.placed cs).mono (List.suffix_cons _ _)) ?_
  obtain ⟨st₁, hopen, hat⟩ := expect_run hat (by decide) (by decide)
  rw [run_bind_ok hopen]
  unfold Selector.list
  refine (h.agrees hbound hat).bind ?_
  intro n rest st₂ hitem hat
  have hshorter := (h.placed.leaves hitem).shorter
  have hle := hat.length_le
  simp only [hitem]
  refine (moreItems_agrees h hat (by omega) (Nat.lt_add_one _) (by omega)).bind ?_
  intro ns rest' st₃ hmore hat
  simp only [hmore]
  exact agrees_pure hat

theorem entryName_agrees (h : Stands source cs st) :
    Agrees source (Selector.entryName cs) ((entryName source).run st) := by
  unfold Selector.entryName entryName
  refine Agrees.look h ?_ ?_
  · intro st₁ hskip hat
    rw [hskip]
    exact agrees_stop hat _
  · intro c rest st₁ hskip hat
    simp only [hskip, lead_eq_iff isAscii_quote, onAscii_startsName.lead]
    split
    · rename_i hc
      subst hc
      exact quoted_agrees hat
    split
    · rename_i hc
      exact identifier_agrees hat (identifier_behind hc rest)
    · exact agrees_stop hat _

theorem entries_agrees (h : Tracks source bound inner rule) {fuel budget : Nat}
    (hat : Stands source cs st) (hbound : cs.length ≤ bound) (hfuel : cs.length < fuel)
    (hbudget : cs.length < budget) :
    Agrees source (Selector.entries rule fuel cs) ((entries source inner budget).run st) := by
  induction fuel generalizing budget cs st with
  | zero => omega
  | succ fuel ih =>
    obtain ⟨budget, rfl⟩ := Nat.exists_eq_add_one_of_ne_zero (by omega : budget ≠ 0)
    unfold Selector.entries entries
    refine (entryName_agrees hat).bind ?_
    intro name rest₁ st₁ hname hat
    have hlength₁ := (placed_entryName.leaves hname).shorter
    simp only [hname]
    refine (expect_agrees (c := ':') (by decide) hat).bind ?_
    intro _ rest₂ st₂ hcolon hat
    have hlength₂ := ((placed_expect ':').leaves hcolon).shorter
    simp only [hcolon]
    refine (h.agrees (by omega) hat).bind ?_
    intro n rest₃ st₃ hitem hat
    have hlength₃ := (h.placed.leaves hitem).shorter
    have hlength₄ := (skipBlanks_suffix rest₃).length_le
    simp only [hitem]
    refine Agrees.look hat ?_ ?_
    · intro st₄ hskip hat
      rw [hskip]
      exact agrees_stop hat _
    · intro c rest st₄ hskip hat
      rw [hskip, List.length_cons] at hlength₄
      simp only [hskip, lead_eq_iff (show IsAscii ',' by decide),
        lead_eq_iff (show IsAscii '\x7d' by decide)]
      split
      · rename_i hc
        have hat := hat.advance_ascii (by rw [hc]; decide)
        rw [run_bind_ok (run_advance _ _)]
        refine (ih hat (by omega) (by omega) (by omega)).bind ?_
        intro es rest' st₅ hmore hat
        simp only [hmore]
        exact agrees_pure hat
      split
      · rename_i hc
        exact agrees_advance hat (by rw [hc]; decide)
      · exact agrees_stop hat _

theorem hash_agrees (h : Tracks source bound inner rule) (hat : Stands source ('\x7b' :: cs) st)
    (hbound : cs.length < bound) :
    Agrees source (Selector.hash rule cs) ((hash source inner).run st) := by
  refine Agrees.taking hat ((placed_hash h.placed cs).mono (List.suffix_cons _ _)) ?_
  obtain ⟨st₁, hopen, hat⟩ := expect_run hat (by decide) (by decide)
  have hle := hat.length_le
  rw [run_bind_ok hopen]
  unfold Selector.hash
  refine (entries_agrees h hat (by omega) (Nat.lt_add_one _) (by omega)).bind ?_
  intro es rest st₂ hentries hat
  simp only [hentries]
  exact agrees_pure hat

/-! ### Expressions -/

theorem function_agrees (h : Tracks source bound inner rule) (name : String)
    (hat : Stands source cs st) (hbound : cs.length ≤ bound) :
    Agrees source (Selector.function rule name cs) ((function source inner name).run st) := by
  refine Agrees.taking hat (placed_function h.placed name cs) ?_
  unfold Selector.function
  split
  · exact agrees_stop hat _
  refine (expect_agrees (c := '(') (by decide) hat).bind ?_
  intro _ rest₁ st₁ hopen hat
  have hlength := ((placed_expect '(').leaves hopen).shorter
  simp only [hopen]
  refine (h.agrees (by omega) hat).bind ?_
  intro n rest₂ st₂ hitem hat
  simp only [hitem]
  refine (expect_agrees (c := ')') (by decide) hat).bind ?_
  intro _ rest₃ st₃ hclose hat
  simp only [hclose]
  exact agrees_pure hat

theorem nameOrFunction_agrees (h : Tracks source bound inner rule) {c : Char}
    (hc : startsName c = true) (hat : Stands source (c :: cs) st) (hbound : cs.length < bound) :
    Agrees source (Selector.nameOrFunction rule (c :: cs))
      ((nameOrFunction source inner).run st) := by
  have hbehind := identifier_behind hc cs
  have hname := identifier_agrees hat hbehind
  unfold Selector.nameOrFunction nameOrFunction
  generalize Selector.identifier (c :: cs) = named at hbehind hname ⊢
  obtain ⟨name, text⟩ := named
  obtain ⟨st₁, hname, hat⟩ := hname
  have hlength := (skipBlanks_suffix text).length_le
  have hshorter := hbehind.shorter
  rw [List.length_cons] at hshorter
  rw [run_bind_ok hname]
  dsimp only at hshorter ⊢
  refine Agrees.look hat ?_ ?_
  · intro st₂ hskip hat
    rw [hskip]
    exact agrees_pure hat
  · intro d rest st₂ hskip hat
    rw [hskip] at hlength
    simp only [hskip, Option.some_inj, lead_eq_iff (show IsAscii '(' by decide)]
    split
    · exact function_agrees h _ hat (by omega)
    · exact agrees_pure hat

/-- A quoted name selects a field. -/
theorem quotedField_agrees (hat : Stands source ('"' :: cs) st) :
    Agrees source
      (match quotedName cs with
        | .ok (name, rest) => .ok (.field name, rest)
        | .error e => .error e)
      ((quoted source >>= fun name => pure (.field name) : Scan Node).run st) := by
  refine (quoted_agrees hat).bind ?_
  intro name rest' st₂ hname hat
  simp only [hname]
  exact agrees_pure hat

theorem primary_agrees (h : Tracks source bound inner rule) (hat : Stands source cs st)
    (hbound : cs.length ≤ bound) :
    Agrees source (Selector.primary rule cs) ((primary source inner).run st) := by
  have hlength := (skipBlanks_suffix cs).length_le
  refine Agrees.taking hat (placed_primary h.placed cs) (Agrees.look hat ?_ ?_)
  · intro st₁ hskip hat
    rw [Selector.primary, hskip]
    exact agrees_stop hat _
  · intro c rest st₁ hskip hat
    rw [hskip, List.length_cons] at hlength
    simp only [Selector.primary, hskip, lead_eq_iff isAscii_quote,
      lead_eq_iff (show IsAscii '[' by decide), lead_eq_iff (show IsAscii '\x7b' by decide),
      lead_eq_iff (show IsAscii '@' by decide), onAscii_startsName.lead]
    split
    · rename_i hc
      subst hc
      obtain ⟨st₂, hlooks, hat⟩ := looksLikeIndex_run hat (by decide)
      rw [run_bind_ok hlooks]
      split
      · exact index_agrees hat
      · exact list_agrees h hat (by omega)
    split
    · rename_i hc
      subst hc
      exact hash_agrees h hat (by omega)
    split
    · rename_i hc
      subst hc
      exact quotedField_agrees hat
    split
    · rename_i hc
      exact agrees_advance hat (by rw [hc]; decide)
    split
    · rename_i hc
      exact nameOrFunction_agrees h hc hat (by omega)
    · exact agrees_stop hat _

theorem afterDot_agrees (h : Tracks source bound inner rule) (hat : Stands source cs st)
    (hbound : cs.length ≤ bound) :
    Agrees source (Selector.afterDot rule cs) ((afterDot source inner).run st) := by
  have hlength := (skipBlanks_suffix cs).length_le
  refine Agrees.taking hat (placed_afterDot h.placed cs) (Agrees.look hat ?_ ?_)
  · intro st₁ hskip hat
    rw [Selector.afterDot, hskip]
    exact agrees_stop hat _
  · intro c rest st₁ hskip hat
    rw [hskip, List.length_cons] at hlength
    simp only [Selector.afterDot, hskip, lead_eq_iff isAscii_quote,
      lead_eq_iff (show IsAscii '[' by decide), lead_eq_iff (show IsAscii '\x7b' by decide),
      onAscii_startsName.lead]
    split
    · rename_i hc
      subst hc
      exact quotedField_agrees hat
    split
    · rename_i hc
      subst hc
      exact list_agrees h hat (by omega)
    split
    · rename_i hc
      subst hc
      exact hash_agrees h hat (by omega)
    split
    · rename_i hc
      obtain ⟨st₂, hname, hat⟩ := identifier_agrees hat (identifier_behind hc rest)
      rw [run_bind_ok hname]
      exact agrees_pure hat
    · exact agrees_stop hat _

theorem steps_agrees (h : Tracks source bound inner rule) {fuel budget : Nat} (n : Node)
    (hat : Stands source cs st) (hbound : cs.length ≤ bound) (hfuel : cs.length < fuel)
    (hbudget : cs.length < budget) :
    Agrees source (Selector.steps rule fuel n cs) ((steps source inner budget n).run st) := by
  induction fuel generalizing budget n cs st with
  | zero => omega
  | succ fuel ih =>
    obtain ⟨budget, rfl⟩ := Nat.exists_eq_add_one_of_ne_zero (by omega : budget ≠ 0)
    have hlength := (skipBlanks_suffix cs).length_le
    unfold Selector.steps steps
    refine Agrees.look hat ?_ ?_
    · intro st₁ hskip hat
      rw [hskip]
      exact agrees_pure hat
    · intro c rest st₁ hskip hat
      rw [hskip, List.length_cons] at hlength
      simp only [hskip, lead_eq_iff (show IsAscii '.' by decide),
        lead_eq_iff (show IsAscii '[' by decide)]
      split
      · rename_i hc
        have hat := hat.advance_ascii (by rw [hc]; decide)
        rw [run_bind_ok (run_advance _ _)]
        refine (afterDot_agrees h hat (by omega)).bind ?_
        intro m rest' st₂ hstep hat
        have hshorter := ((placed_afterDot h.placed).leaves hstep).shorter
        simp only [hstep]
        exact ih _ hat (by omega) (by omega) (by omega)
      split
      · rename_i hc
        subst hc
        refine (index_agrees hat).bind ?_
        intro m rest' st₂ hstep hat
        have hshorter := (placed_index.leaves hstep).shorter
        simp only [hstep]
        exact ih _ hat (by omega) (by omega) (by omega)
      · exact agrees_pure hat

end

/-- Two budgets for the nesting that are enough for a text are as good as each other. -/
theorem tracks_expression (source : String) {bound depth budget : Nat} (hdepth : bound ≤ depth)
    (hbudget : bound ≤ budget) :
    Tracks source bound (expression source budget) (Selector.expression depth) := by
  refine ⟨fun {cs st} hbound hat => ?_, placed_expression depth⟩
  -- on the bound: what stands in the brackets of a text is shorter than the text
  induction bound generalizing depth budget cs st with
  | zero => exact absurd hbound (Nat.not_lt_zero _)
  | succ bound ih =>
    obtain ⟨depth, rfl⟩ := Nat.exists_eq_add_one_of_ne_zero (by omega : depth ≠ 0)
    obtain ⟨budget, rfl⟩ := Nat.exists_eq_add_one_of_ne_zero (by omega : budget ≠ 0)
    have htracks : Tracks source bound (expression source budget) (Selector.expression depth) :=
      ⟨fun {cs st} hbound hat => ih (by omega) (by omega) hbound hat, placed_expression depth⟩
    have hle := hat.length_le
    refine Agrees.taking hat (placed_expression (depth + 1) cs) ?_
    unfold Selector.expression expressionWith
    refine (primary_agrees htracks hat (by omega)).bind ?_
    intro n rest st₁ hprimary hat
    have hshorter := ((placed_primary (placed_expression depth)).leaves hprimary).shorter
    simp only [hprimary]
    exact steps_agrees htracks n hat (by omega) (by omega) (by omega)

/-! ### Whole sources -/

/-- What reading a whole source comes to. -/
theorem read_parseNode (source : String) :
    ∃ st, Clean source st ∧ read source =
      match parseNode source.toList with
      | .ok n => .ok n st
      | .error s => .error (.refused ⟨source, s.position source.toList, s.cause.text⟩) st := by
  obtain ⟨st₁, hblanks, hat⟩ := (stands_start source).skipBlanks
  have hlength := (skipBlanks_suffix source.toList).length_le
  have hsize := (stands_start source).length_le
  unfold parseNode read node
  rw [run_bind_ok hblanks, run_bind_ok hat.atEnd]
  cases hskip : skipBlanks source.toList with
  | nil => exact ⟨st₁, hat.clean, rfl⟩
  | cons c text =>
    rw [hskip] at hat hlength
    have htracks : Tracks source (source.toList.length + 1)
        (expression source (source.utf8ByteSize + 1))
        (Selector.expression (source.toList.length + 1)) :=
      tracks_expression source (Nat.le_refl _) (Nat.succ_le_succ hsize)
    have hagrees := htracks.agrees (Nat.lt_succ_of_le hlength) hat
    simp only [reduceCtorEq, decide_false, Bool.false_eq_true, if_false]
    cases hr : Selector.expression (source.toList.length + 1) (c :: text) with
    | error s =>
      rw [hr] at hagrees
      obtain ⟨st₂, hrun, hclean⟩ := hagrees
      rw [EStateM.run_bind, hrun]
      exact ⟨st₂, hclean, rfl⟩
    | ok p =>
      obtain ⟨n, rest⟩ := p
      rw [hr] at hagrees
      obtain ⟨st₂, hrun, hat⟩ := hagrees
      obtain ⟨st₃, hblanks, hat⟩ := hat.skipBlanks
      rw [run_bind_ok hrun, run_bind_ok hblanks, run_bind_ok hat.atEnd]
      dsimp only
      cases hend : skipBlanks rest with
      | nil => exact ⟨st₃, hat.clean, rfl⟩
      | cons d rest' =>
        rw [hend] at hat
        obtain ⟨st₄, hrun, hclean⟩ : Agrees source
            (.error (stop .trailingInput (d :: rest')) : Except Stop (Node × List Char)) _ :=
          agrees_stop hat .trailingInput
        exact ⟨st₄, hclean, hrun⟩

/-- The cursor never crashes, and comes to what `parse` says. -/
theorem read_eq (source : String) :
    ∃ st, Clean source st ∧ read source =
      match parse source with
      | .ok s => .ok s.node st
      | .error e => .error (.refused e) st := by
  obtain ⟨st, hclean, hread⟩ := read_parseNode source
  refine ⟨st, hclean, ?_⟩
  rw [hread, parse]
  cases parseNode source.toList with
  | ok n => rfl
  | error s => rfl

/-- Two names: each is cut out, and each rule that takes them takes something. -/
example :
    (match read "ab .c" with
      | .ok _ st => st.marks
      | .error _ st => st.marks) =
    [.moved 0, .moved 0, .moved 2, .cut 0 2, .took 0 2, .moved 3, .took 0 3, .moved 3, .moved 4,
      .moved 4, .moved 5, .cut 4 5, .took 4 5, .took 4 5, .moved 5, .took 0 5, .moved 5] := by
  decide +kernel

end Cursor

end AtMostOnce.Selector
