/-
Blanks between tokens.

Each rule reads a text and a respaced one alike, token by token, but for one: whether a bracket in
front opens an index is decided by a look past spaces only.  So what the proof carries through the
rules is the respaced text together with the question whether the indexes in front that it still
holds are spaced with nothing but spaces (`Follows`).  As long as they are, both texts are read
alike; the first one that is not is taken for a list and refused.
-/
import AtMostOnce.Proofs.Selector.Respaced

namespace AtMostOnce.Selector

open AtMostOnce.Json

/-! ### Rules -/

/-- What a rule makes of the other text, if it has taken `a` off the one text and left `rest`. -/
inductive Follows {α : Type} (plain : Bool) (a : α) (rest : List Char) :
    Except Stop (α × List Char) → Prop
  /-- It takes the same off, and what it leaves is as plain as the text was. -/
  | taken {rest' : List Char} (hrest : Respaced rest rest')
    (hplain : plainFronts .behind rest' = plain) : Follows plain a rest (.ok (a, rest'))
  /-- It refuses the text, which is not plain. -/
  | refused {s : Stop} (hplain : plain = false) : Follows plain a rest (.error s)

/-- Two readers of expressions, the second of which follows the first on texts below a length. -/
structure Pair (bound : Nat) (inner inner' : Rule Node) : Prop where
  follows : ∀ {cs ds rest : List Char} {n : Node}, Respaced cs ds → ds.length < bound →
    inner cs = .ok (n, rest) → Follows (plainFronts .front ds) n rest (inner' ds)
  placed : Placed inner
  placed' : Placed inner'
  refuses : Refuses inner
  refuses' : Refuses inner'

section

variable {bound : Nat} {inner inner' : Rule Node} {c : Char} {cs ds rest : List Char} {p : Place}
  {n : Node} {name : String}

theorem length_lt_of_skipBlanks (h : skipBlanks cs = c :: rest) : rest.length < cs.length :=
  Nat.lt_of_lt_of_le (Nat.lt_succ_self _) (suffix_of_skipBlanks h).length_le

theorem moreItems_follows (h : Pair bound inner inner') {fuel fuel' : Nat} {ns : List Node}
    (hs : Respaced cs ds) (hbound : ds.length < bound) (hfuel : ds.length < fuel')
    (hr : moreItems inner fuel cs = .ok (ns, rest)) :
    Follows (plainFronts .behind ds) ns rest (moreItems inner' fuel' ds) := by
  induction fuel generalizing fuel' cs ds ns rest with
  | zero => cases hr
  | succ fuel ih =>
    obtain ⟨fuel', rfl⟩ := Nat.exists_eq_add_one_of_ne_zero (by omega : fuel' ≠ 0)
    unfold moreItems at hr
    split at hr
    · cases hr
    rename_i c text hskip
    split at hr
    · rename_i hc
      subst hc
      obtain ⟨text', hskip', htext, hplain⟩ := hs.opener hskip (by decide)
      have hlength := length_lt_of_skipBlanks hskip'
      split at hr
      · cases hr
      rename_i n rest₁ hitem
      split at hr
      · cases hr
      rename_i ns rest₂ hmore
      cases hr
      rw [moreItems, hskip', ← hplain]
      dsimp only
      rw [if_pos rfl]
      have hitems := h.follows htext (by omega) hitem
      generalize hitem' : inner' text' = item at hitems ⊢
      cases hitems with
      | refused hno => exact .refused hno
      | @taken rest₁' hrest hplain =>
        have hshorter := (h.placed'.leaves hitem').shorter
        have hmores := ih hrest (by omega) (by omega : rest₁'.length < fuel') hmore
        rw [hplain] at hmores
        dsimp only
        generalize moreItems inner' fuel' rest₁' = more at hmores ⊢
        cases hmores with
        | refused hno => exact .refused hno
        | taken hrest hplain => exact .taken hrest hplain
    rename_i hcomma
    split at hr
    · rename_i hc
      subst hc
      cases hr
      obtain ⟨text', hskip', htext, hplain⟩ := hs.closer hskip (by decide) (by decide)
      rw [moreItems, hskip']
      dsimp only
      rw [if_neg hcomma, if_pos rfl]
      exact .taken htext hplain
    · cases hr

theorem list_follows (h : Pair bound inner inner') (hs : Respaced cs ds)
    (hbound : ds.length < bound) (hr : list inner cs = .ok (n, rest)) :
    Follows (plainFronts .front ds) n rest (list inner' ds) := by
  unfold list at hr
  split at hr
  · cases hr
  rename_i m rest₁ hitem
  split at hr
  · cases hr
  rename_i ns rest₂ hmore
  cases hr
  rw [list]
  have hitems := h.follows hs hbound hitem
  generalize hitem' : inner' ds = item at hitems ⊢
  cases hitems with
  | refused hno => exact .refused hno
  | @taken rest₁' hrest hplain =>
    have hshorter := (h.placed'.leaves hitem').shorter
    have hmores := moreItems_follows h hrest (by omega) (Nat.lt_succ_self _) hmore
    rw [hplain] at hmores
    dsimp only
    generalize moreItems inner' (rest₁'.length + 1) rest₁' = more at hmores ⊢
    cases hmores with
    | refused hno => exact .refused hno
    | taken hrest hplain => exact .taken hrest hplain

theorem entries_follows (h : Pair bound inner inner') {fuel fuel' : Nat}
    {es : List (String × Node)} (hs : Respaced cs ds) (hp : p.Outside) (hbound : ds.length < bound)
    (hfuel : ds.length < fuel') (hr : entries inner fuel cs = .ok (es, rest)) :
    Follows (plainFronts p ds) es rest (entries inner' fuel' ds) := by
  induction fuel generalizing fuel' cs ds es rest p with
  | zero => cases hr
  | succ fuel ih =>
    obtain ⟨fuel', rfl⟩ := Nat.exists_eq_add_one_of_ne_zero (by omega : fuel' ≠ 0)
    unfold entries at hr
    split at hr
    · cases hr
    rename_i name rest₁ hname
    split at hr
    · cases hr
    rename_i rest₂ hcolon
    split at hr
    · cases hr
    rename_i n rest₃ hitem
    obtain ⟨rest₁', hname', hrest₁, hplain₁⟩ := entryName_respaced hs hp hname
    obtain ⟨rest₂', hcolon', hrest₂, hplain₂⟩ :=
      expect_respaced hrest₁ (by decide) hcolon
    have hplain₂ : plainFronts .front rest₂' = plainFronts .behind rest₁' := hplain₂
    have hshorter₁ := (placed_entryName.leaves hname').shorter
    have hshorter₂ := ((placed_expect ':').leaves hcolon').shorter
    rw [entries, hname', ← hplain₁, ← hplain₂]
    dsimp only
    rw [hcolon']
    dsimp only
    have hitems := h.follows hrest₂ (by omega) hitem
    generalize hitem' : inner' rest₂' = item at hitems ⊢
    cases hitems with
    | refused hno => exact .refused hno
    | @taken rest₃' hrest₃ hplain₃ =>
      have hshorter₃ := (h.placed'.leaves hitem').shorter
      rw [← hplain₃]
      dsimp only
      split at hr
      · cases hr
      rename_i c text hskip
      split at hr
      · rename_i hc
        subst hc
        split at hr
        · cases hr
        rename_i es rest₄ hmore
        cases hr
        obtain ⟨text', hskip', htext, hplain⟩ := hrest₃.opener hskip (by decide)
        have hlength := length_lt_of_skipBlanks hskip'
        have hmores := ih htext (.inl rfl) (by omega) (by omega : text'.length < fuel') hmore
        rw [hskip', ← hplain]
        dsimp only
        rw [if_pos rfl]
        generalize entries inner' fuel' text' = more at hmores ⊢
        cases hmores with
        | refused hno => exact .refused hno
        | taken hrest hplain => exact .taken hrest hplain
      rename_i hcomma
      split at hr
      · rename_i hc
        subst hc
        cases hr
        obtain ⟨text', hskip', htext, hplain⟩ := hrest₃.closer hskip (by decide) (by decide)
        rw [hskip']
        dsimp only
        rw [if_neg hcomma, if_pos rfl]
        exact .taken htext hplain
      · cases hr

theorem hash_follows (h : Pair bound inner inner') (hs : Respaced cs ds) (hp : p.Outside)
    (hbound : ds.length < bound) (hr : hash inner cs = .ok (n, rest)) :
    Follows (plainFronts p ds) n rest (hash inner' ds) := by
  unfold hash at hr
  split at hr
  · cases hr
  rename_i es rest' hentries
  cases hr
  have hall := entries_follows h hs hp hbound (Nat.lt_succ_self _) hentries
  rw [hash]
  generalize entries inner' (ds.length + 1) ds = all at hall ⊢
  cases hall with
  | refused hno => exact .refused hno
  | taken hrest hplain => exact .taken hrest hplain

theorem function_follows (h : Pair bound inner inner') (hs : Respaced cs ds)
    (hbound : ds.length < bound) (hr : function inner name cs = .ok (n, rest)) :
    Follows (plainFronts .behind ds) n rest (function inner' name ds) := by
  unfold function at hr
  split at hr
  · cases hr
  rename_i hname
  split at hr
  · cases hr
  rename_i rest₁ hopen
  split at hr
  · cases hr
  rename_i m rest₂ hargument
  split at hr
  · cases hr
  rename_i rest₃ hclose
  cases hr
  obtain ⟨rest₁', hopen', hrest₁, hplain₁⟩ :=
    expect_respaced hs (by decide) hopen
  have hplain₁ : plainFronts .front rest₁' = plainFronts .behind ds := hplain₁
  have hshorter := ((placed_expect '(').leaves hopen').shorter
  have hall := h.follows hrest₁ (by omega) hargument
  rw [function, if_neg hname, hopen', ← hplain₁]
  dsimp only
  generalize inner' rest₁' = argument at hall ⊢
  cases hall with
  | refused hno => exact .refused hno
  | taken hrest₂ hplain₂ =>
    obtain ⟨rest₃', hclose', hrest₃, hplain₃⟩ :=
      expect_respaced hrest₂ (by decide) hclose
    rw [← hplain₂]
    dsimp only
    rw [hclose']
    exact .taken hrest₃ hplain₃

theorem nameOrFunction_follows (h : Pair bound inner inner') (hs : Respaced (c :: cs) (c :: ds))
    (hp : p.Outside) (hstarts : startsName c = true) (hbound : (c :: ds).length ≤ bound)
    (hr : nameOrFunction inner (c :: cs) = .ok (n, rest)) :
    Follows (plainFronts p (c :: ds)) n rest (nameOrFunction inner' (c :: ds)) := by
  obtain ⟨hname, hrest, hplain⟩ := identifier_respaced hs hp hstarts
  have hshorter := (identifier_behind hstarts ds).shorter
  have houtside := plainFronts_skipBlanks (p := .behind) (.inr rfl) (identifier (c :: ds)).2
  have hboth := hrest.skip
  unfold nameOrFunction at hr ⊢
  dsimp only at hr ⊢
  rw [← hname, ← hplain, ← houtside]
  generalize hskip' : skipBlanks (identifier (c :: ds)).2 = text' at hboth ⊢
  split at hr
  · rename_i hskip
    cases hr
    rw [hskip] at hboth
    cases hboth
    exact .taken .nil rfl
  rename_i d text hskip
  rw [hskip] at hboth
  obtain ⟨text', rfl, -⟩ := hboth.uncons (isBlank_of_skipBlanks hskip)
  have hlength := (suffix_of_skipBlanks hskip').length_le
  dsimp only
  split at hr
  · rename_i hd
    rw [if_pos hd]
    exact function_follows h hboth (by omega) hr
  · rename_i hd
    cases hr
    rw [if_neg hd]
    exact .taken hboth rfl

/-- In front, the other text is taken for an index too, or its bracket is refused. -/
theorem bracket_follows (h : Pair bound inner inner') (hs : Respaced cs ds)
    (hbound : ds.length < bound)
    (hr : (if looksLikeIndex cs then index cs else list inner cs) = .ok (n, rest)) :
    Follows (plainFronts .front ('[' :: ds)) n rest
      (if looksLikeIndex ds then index ds else list inner' ds) := by
  have hahead := indexAhead_respaced hs
  rw [looksLikeIndex_eq] at hr
  rw [looksLikeIndex_eq, plainFronts]
  by_cases hcs : indexAhead isSpace cs = true
  · rw [if_pos hcs] at hr
    obtain ⟨rest', hr', hrest, hplain⟩ := index_respaced hs (.inl rfl) hr
    rw [indexAhead_blanks hcs] at hahead
    rw [← hahead]
    by_cases hds : indexAhead isSpace ds = true
    · rw [if_pos hds, hds, hr']
      exact .taken hrest hplain
    · obtain ⟨s, hs'⟩ := h.refuses' ds hahead.symm
      rw [if_neg hds, Bool.eq_false_iff.mpr hds, list, hs']
      exact .refused rfl
  · rw [if_neg hcs] at hr
    have hno : indexAhead isBlank cs = false := by
      refine Bool.eq_false_iff.mpr fun hyes => ?_
      obtain ⟨s, hs'⟩ := h.refuses cs hyes
      rw [list, hs'] at hr
      cases hr
    rw [hno] at hahead
    have hds : ¬ indexAhead isSpace ds = true := fun hyes => by
      rw [indexAhead_blanks hyes] at hahead
      cases hahead
    rw [if_neg hds, ← hahead]
    exact list_follows h hs hbound hr

theorem primary_follows (h : Pair bound inner inner') (hs : Respaced cs ds)
    (hbound : ds.length ≤ bound) (hr : primary inner cs = .ok (n, rest)) :
    Follows (plainFronts .front ds) n rest (primary inner' ds) := by
  have hfront : Place.front.Outside := .inl rfl
  unfold primary at hr
  split at hr
  · cases hr
  rename_i c text hskip
  by_cases hquote : c = '"'
  · subst hquote
    rw [if_neg (by decide), if_neg (by decide), if_pos rfl] at hr
    split at hr
    · rename_i name rest hname
      cases hr
      obtain ⟨text', rest', hskip', hname', hrest, hplain⟩ :=
        quotedName_respaced hs hfront hskip hname
      rw [primary, hskip']
      dsimp only
      rw [if_neg (by decide), if_neg (by decide), if_pos rfl, hname']
      exact .taken hrest hplain
    · cases hr
  obtain ⟨text', hskip', htext⟩ := hs.next hskip hquote
  have hlength := length_lt_of_skipBlanks hskip'
  rw [primary, hskip', ← plainFronts_skipBlanks hfront ds, hskip']
  dsimp only
  by_cases hbracket : c = '['
  · subst hbracket
    rw [if_pos rfl] at hr ⊢
    exact bracket_follows h htext (by omega) hr
  have hafter : plainFronts .front (c :: text') = plainFronts (Place.front.after c) text' :=
    plainFronts_cons fun _ => hbracket
  rw [hfront.after (isBlank_of_skipBlanks hskip) hquote] at hafter
  rw [if_neg hbracket] at hr ⊢
  by_cases hbrace : c = '\x7b'
  · subst hbrace
    rw [if_pos rfl] at hr ⊢
    rw [hafter]
    exact hash_follows h htext (.inr rfl) (by omega) hr
  rw [if_neg hbrace, if_neg hquote] at hr ⊢
  by_cases hat : c = '@'
  · subst hat
    rw [if_pos rfl] at hr ⊢
    cases hr
    rw [hafter]
    exact .taken htext rfl
  rw [if_neg hat] at hr ⊢
  split at hr
  · rename_i hstarts
    have hboth := hs.skip
    rw [hskip, hskip'] at hboth
    rw [if_pos hstarts]
    exact nameOrFunction_follows h hboth hfront hstarts
      ((suffix_of_skipBlanks hskip').length_le.trans hbound) hr
  · cases hr

theorem afterDot_follows (h : Pair bound inner inner') (hs : Respaced cs ds)
    (hbound : ds.length ≤ bound) (hr : afterDot inner cs = .ok (n, rest)) :
    Follows (plainFronts .behind ds) n rest (afterDot inner' ds) := by
  have hbehind : Place.behind.Outside := .inr rfl
  unfold afterDot at hr
  split at hr
  · cases hr
  rename_i c text hskip
  by_cases hquote : c = '"'
  · subst hquote
    rw [if_pos rfl] at hr
    split at hr
    · rename_i name rest hname
      cases hr
      obtain ⟨text', rest', hskip', hname', hrest, hplain⟩ :=
        quotedName_respaced hs hbehind hskip hname
      rw [afterDot, hskip']
      dsimp only
      rw [if_pos rfl, hname']
      exact .taken hrest hplain
    · cases hr
  obtain ⟨text', hskip', htext, hplain⟩ := hs.token hskip hquote
  have hlength := length_lt_of_skipBlanks hskip'
  rw [afterDot, hskip']
  dsimp only
  rw [if_neg hquote] at hr ⊢
  by_cases hbracket : c = '['
  · subst hbracket
    have hplain : plainFronts .front text' = plainFronts .behind ds := hplain
    rw [if_pos rfl] at hr ⊢
    rw [← hplain]
    exact list_follows h htext (by omega) hr
  rw [if_neg hbracket] at hr ⊢
  by_cases hbrace : c = '\x7b'
  · subst hbrace
    have hplain : plainFronts .behind text' = plainFronts .behind ds := hplain
    rw [if_pos rfl] at hr ⊢
    rw [← hplain]
    exact hash_follows h htext hbehind (by omega) hr
  rw [if_neg hbrace] at hr ⊢
  split at hr
  · rename_i hstarts
    have hboth := hs.skip
    rw [hskip, hskip'] at hboth
    obtain ⟨hname, hrest, hplain⟩ := identifier_respaced hboth hbehind hstarts
    cases hr
    rw [if_pos hstarts, ← plainFronts_skipBlanks hbehind ds, hskip', ← hname]
    exact .taken hrest hplain
  · cases hr

theorem steps_follows (h : Pair bound inner inner') {fuel fuel' : Nat} {m : Node}
    (hs : Respaced cs ds) (hbound : ds.length ≤ bound) (hfuel : cs.length < fuel)
    (hfuel' : ds.length < fuel') (hr : steps inner fuel m cs = .ok (n, rest)) :
    Follows (plainFronts .behind ds) n rest (steps inner' fuel' m ds) := by
  have hbehind : Place.behind.Outside := .inr rfl
  induction fuel generalizing fuel' cs ds m with
  | zero => cases hfuel
  | succ fuel ih =>
    obtain ⟨fuel', rfl⟩ := Nat.exists_eq_add_one_of_ne_zero (by omega : fuel' ≠ 0)
    unfold steps at hr
    split at hr
    · rename_i hskip
      cases hr
      rw [steps, hs.next_nil hskip, ← plainFronts_skipBlanks hbehind, hs.next_nil hskip]
      exact .taken .nil rfl
    rename_i c text hskip
    have hlength := length_lt_of_skipBlanks hskip
    by_cases hdot : c = '.'
    · subst hdot
      obtain ⟨text', hskip', htext, hplain⟩ := hs.closer hskip (by decide) (by decide)
      have hlength' := length_lt_of_skipBlanks hskip'
      rw [if_pos rfl] at hr
      split at hr
      · rename_i step rest₁ hstep
        have hsteps := afterDot_follows h htext (by omega) hstep
        rw [steps, hskip', ← hplain]
        dsimp only
        rw [if_pos rfl]
        generalize hstep' : afterDot inner' text' = after at hsteps ⊢
        cases hsteps with
        | refused hno => exact .refused hno
        | @taken rest₁' hrest hplain =>
          have hshorter := ((placed_afterDot h.placed).leaves hstep).shorter
          have hshorter' := ((placed_afterDot h.placed').leaves hstep').shorter
          rw [← hplain]
          exact ih hrest (by omega) (by omega) (by omega) hr
      · cases hr
    rw [if_neg hdot] at hr
    by_cases hbracket : c = '['
    · subst hbracket
      obtain ⟨text', hskip', htext, hplain⟩ := hs.opener hskip (by decide)
      have hlength' := length_lt_of_skipBlanks hskip'
      rw [if_pos rfl] at hr
      split at hr
      · rename_i step rest₁ hstep
        obtain ⟨rest₁', hstep', hrest, hplain'⟩ := index_respaced htext (.inl rfl) hstep
        have hshorter := (placed_index.leaves hstep).shorter
        have hshorter' := (placed_index.leaves hstep').shorter
        rw [steps, hskip', ← hplain, ← hplain']
        dsimp only
        rw [if_neg hdot, if_pos rfl, hstep']
        exact ih hrest (by omega) (by omega) (by omega) hr
      · cases hr
    rw [if_neg hbracket] at hr
    cases hr
    have hboth := hs.skip
    rw [hskip] at hboth
    obtain ⟨text', hskip', -⟩ := hboth.uncons (isBlank_of_skipBlanks hskip)
    rw [steps, ← plainFronts_skipBlanks hbehind, hskip']
    dsimp only
    rw [if_neg hdot, if_neg hbracket]
    exact .taken (hskip' ▸ hboth) rfl

end

/-- However deep the one may nest, expressions follow one another on texts that fit the other. -/
theorem expression_pair (depth depth' : Nat) :
    Pair depth' (expression depth) (expression depth') := by
  refine ⟨fun {cs ds rest n} hs hbound hr => ?_, placed_expression depth, placed_expression depth',
    refuses_expression depth, refuses_expression depth'⟩
  induction depth generalizing depth' cs ds rest n with
  | zero => cases hr
  | succ depth ih =>
    obtain ⟨depth', rfl⟩ := Nat.exists_eq_add_one_of_ne_zero (by omega : depth' ≠ 0)
    have hpair : Pair depth' (expression depth) (expression depth') :=
      ⟨ih depth', placed_expression depth, placed_expression depth', refuses_expression depth,
        refuses_expression depth'⟩
    unfold expression expressionWith at hr ⊢
    split at hr
    · rename_i m rest₁ hprimary
      have hprimaries := primary_follows hpair hs (by omega) hprimary
      generalize hprimary' : primary (expression depth') ds = first at hprimaries ⊢
      cases hprimaries with
      | refused hno => exact .refused hno
      | @taken rest₁' hrest hplain =>
        have hshorter := ((placed_primary (placed_expression depth')).leaves hprimary').shorter
        rw [← hplain]
        exact steps_follows hpair hrest (by omega) (Nat.lt_succ_self _) (Nat.lt_succ_self _) hr
    · cases hr

/-- The other text is read as the same node if it is plain, and refused if it is not. -/
theorem parseNode_respaced {cs ds : List Char} {n : Node} (h : Respaced cs ds)
    (hr : parseNode cs = .ok n) :
    parseNode ds = .ok n ∧ plainFronts .front ds = true ∨
      (∃ s, parseNode ds = .error s) ∧ plainFronts .front ds = false := by
  have houtside := plainFronts_skipBlanks (p := .front) (.inl rfl) ds
  unfold parseNode at hr
  split at hr
  · rename_i hskip
    cases hr
    rw [← houtside, parseNode, h.next_nil hskip]
    exact .inl ⟨rfl, rfl⟩
  rename_i c text hskip
  have hboth := h.skip
  rw [hskip] at hboth
  obtain ⟨text', hskip', -⟩ := hboth.uncons (isBlank_of_skipBlanks hskip)
  have hlength := (suffix_of_skipBlanks hskip').length_le
  rw [hskip'] at hboth houtside
  rw [← houtside, parseNode, hskip']
  dsimp only
  split at hr
  · cases hr
  rename_i m rest hexpression
  have hexpressions := (expression_pair _ (ds.length + 1)).follows hboth (by omega) hexpression
  generalize expression (ds.length + 1) (c :: text') = whole at hexpressions ⊢
  cases hexpressions with
  | refused hno => exact .inr ⟨⟨_, rfl⟩, hno⟩
  | @taken rest' hrest hplain =>
    split at hr
    · rename_i hend
      cases hr
      have hend' := hrest.next_nil hend
      rw [← hplain, ← plainFronts_skipBlanks (.inr rfl), hend']
      dsimp only
      rw [hend']
      exact .inl ⟨rfl, rfl⟩
    · cases hr

/-- **Blanks between tokens make no difference, but for the index in front.**  If a source is
accepted, every text that has other blanks between its tokens is accepted with the same tree,
exactly if each index in front that the text holds is spaced with nothing but spaces; otherwise the
text is refused. -/
theorem blanks_insignificant_iff {source text : String} {s : Selector}
    (hs : parse source = .ok s) (h : Respaced source.toList text.toList) :
    (parse text = .ok ⟨text, s.node⟩ ↔ plainFronts .front text.toList = true) ∧
      ((∃ e, parse text = .error e) ↔ plainFronts .front text.toList = false) := by
  unfold parse at hs
  split at hs
  · rename_i n hn
    cases hs
    rcases parseNode_respaced h hn with ⟨hok, hplain⟩ | ⟨⟨s, herror⟩, hplain⟩
    · rw [parse, hok, hplain]
      refine ⟨⟨fun _ => rfl, fun _ => rfl⟩, fun herror => ?_, fun hno => absurd hno (by decide)⟩
      obtain ⟨_, herror⟩ := herror
      cases herror
    · rw [parse, herror, hplain]
      refine ⟨⟨fun hok => ?_, fun hyes => absurd hyes (by decide)⟩, fun _ => rfl, fun _ => ⟨_, rfl⟩⟩
      cases hok
  · cases hs

/-- The index of a bracket with a space in it. -/
theorem parse_spaced_index : parse "[ 0]" = .ok ⟨"[ 0]", .index 0⟩ := by
  have hindex : index [' ', '0', ']'] = .ok (.index 0, []) :=
    index_integerText (i := 0) (by decide) []
  have hprimary (inner : Rule Node) : primary inner ['[', ' ', '0', ']'] = .ok (.index 0, []) :=
    hindex
  have hexpression : expression 5 ['[', ' ', '0', ']'] = .ok (.index 0, []) := by
    rw [expression, expressionWith, hprimary]
    rfl
  have hnode : parseNode ['[', ' ', '0', ']'] = .ok (.index 0) := by
    rw [parseNode, skipBlanks_cons (by decide)]
    dsimp only [List.length]
    rw [hexpression]
    rfl
  rw [parse, show "[ 0]".toList = ['[', ' ', '0', ']'] from rfl, hnode]

/-- Line breaks and tabs go unnoticed in a hash, while the blanks of a quoted name stay; in a
bracket in front a tab is refused. -/
theorem blanks_insignificant_hash :
    parse "\x7b \"a  b\" : @ \x7d" = .ok ⟨"\x7b \"a  b\" : @ \x7d", .hash [("a  b", .current)]⟩ ∧
      parse "\x7b\n\t\"a  b\"   :\r@\t\x7d" =
        .ok ⟨"\x7b\n\t\"a  b\"   :\r@\t\x7d", .hash [("a  b", .current)]⟩ ∧
      ∃ e, parse "[\t0]" = .error e := by
  have hparse : parse "\x7b \"a  b\" : @ \x7d" =
      .ok ⟨"\x7b \"a  b\" : @ \x7d", .hash [("a  b", .current)]⟩ := by cbv
  have hname : Quoted ['a', ' ', ' ', 'b', '"'] :=
    .plain (by decide) (by decide) <| .plain (by decide) (by decide) <|
    .plain (by decide) (by decide) <| .plain (by decide) (by decide) .close
  have hhash : Respaced "\x7b \"a  b\" : @ \x7d".toList "\x7b\n\t\"a  b\"   :\r@\t\x7d".toList :=
    .char rfl (by decide) <| .blanks [] ['\t'] rfl rfl rfl <|
    .name hname <| .blanks [] [' ', ' '] rfl rfl rfl <|
    .char rfl (by decide) <| .blanks [] [] rfl rfl rfl <|
    .char rfl (by decide) <| .blanks [] [] rfl rfl rfl <|
    .char rfl (by decide) .nil
  have hindex : Respaced "[ 0]".toList "[\t0]".toList :=
    .char rfl (by decide) <| .blanks [] [] rfl rfl rfl <|
    .char rfl (by decide) <| .char rfl (by decide) .nil
  exact ⟨hparse, (blanks_insignificant_iff hparse hhash).1.mpr (by decide),
    (blanks_insignificant_iff parse_spaced_index hindex).2.mpr (by decide)⟩

/-- An index in front is accepted with a space behind its bracket, and refused with a tab there. -/
theorem blanks_significant_front :
    parse "[ 0]" = .ok ⟨"[ 0]", .index 0⟩ ∧ Respaced "[ 0]".toList "[\t0]".toList ∧
      ∃ e, parse "[\t0]" = .error e :=
  ⟨parse_spaced_index,
    .char rfl (by decide) <| .blanks [] [] rfl rfl rfl <|
    .char rfl (by decide) <| .char rfl (by decide) .nil,
    _, rfl⟩

end AtMostOnce.Selector
