/-
Texts with other blanks between their tokens.

A text is respaced by putting other blanks for each run of blanks outside of its quoted names
(`Respaced`).  The tokens of the two texts are the same one by one, so a token that is read off the
one is read off the other, and what is left of both is respaced again.  What may differ is whether
an integer that stands alone in brackets has nothing but spaces around it; `plainFronts` asks this
of a text from place to place, and behind a token it asks the same of what is left.
-/
import AtMostOnce.Proofs.Selector.Places
import AtMostOnce.Proofs.Selector.RoundTrip

namespace AtMostOnce.Selector

open AtMostOnce.Json

/-! ### Quoted names -/

/-- The inside of a quoted name, up to and with its closing quote. -/
inductive Quoted : List Char → Prop
  | close : Quoted ['"']
  | escaped (d : Char) {inside : List Char} (h : Quoted inside) : Quoted ('\\' :: d :: inside)
  | plain {c : Char} {inside : List Char} (hquote : c ≠ '"') (hback : c ≠ '\\')
    (h : Quoted inside) : Quoted (c :: inside)

theorem Quoted.scan {inside : List Char} (h : Quoted inside) (rest : List Char) :
    scanQuoted (inside ++ rest) = .ok (inside, rest) := by
  induction h with
  | close =>
    rw [scanQuoted.eq_def]
    rfl
  | escaped d _ ih => exact scanQuoted_escaped d ih
  | plain hquote hback _ ih => exact scanQuoted_plain hquote hback ih

/-! ### Respaced texts -/

/-- One text is the other with each run of blanks outside of quoted names put for another one. -/
inductive Respaced : List Char → List Char → Prop
  | nil : Respaced [] []
  | blanks {c d : Char} (run run' : List Char) {cs ds : List Char}
    (hrun : (c :: run).all isBlank = true) (hrun' : (d :: run').all isBlank = true)
    (hend : cs.head?.any isBlank = false)
    (h : Respaced cs ds) : Respaced (c :: (run ++ cs)) (d :: (run' ++ ds))
  | name {inside cs ds : List Char} (hname : Quoted inside) (h : Respaced cs ds) :
    Respaced ('"' :: (inside ++ cs)) ('"' :: (inside ++ ds))
  | char {c : Char} {cs ds : List Char} (hblank : isBlank c = false) (hquote : c ≠ '"')
    (h : Respaced cs ds) : Respaced (c :: cs) (c :: ds)

section

variable {c : Char} {cs ds rest : List Char}

theorem isBlank_of_run {run : List Char} (h : (c :: run).all isBlank = true) : isBlank c = true :=
  List.all_eq_true.mp h c List.mem_cons_self

/-- The other text does not start with a blank either. -/
theorem Respaced.head (h : Respaced cs ds) (hcs : cs.head?.any isBlank = false) :
    ds.head?.any isBlank = false := by
  cases h with
  | nil => exact hcs
  | @blanks c _ _ _ _ _ hrun =>
    have hc : isBlank c = false := hcs
    rw [isBlank_of_run hrun] at hc
    cases hc
  | name => exact hcs
  | char => exact hcs

theorem skipBlanks_run {run : List Char} (hrun : run.all isBlank = true)
    (hend : cs.head?.any isBlank = false) : skipBlanks (run ++ cs) = cs := by
  rw [skipBlanks, List.dropWhile_append_of_pos (List.all_eq_true.mp hrun)]
  cases cs with
  | nil => rfl
  | cons c cs => exact skipBlanks_cons hend cs

/-- The two texts stay so behind their first blanks. -/
theorem Respaced.skip (h : Respaced cs ds) : Respaced (skipBlanks cs) (skipBlanks ds) := by
  cases h with
  | nil => exact .nil
  | @blanks c d run run' cs ds hrun hrun' hend h =>
    rw [← List.cons_append, ← List.cons_append, skipBlanks_run hrun hend,
      skipBlanks_run hrun' (h.head hend)]
    exact h
  | name hname h =>
    rw [skipBlanks_cons (by decide), skipBlanks_cons (by decide)]
    exact .name hname h
  | char hblank hquote h =>
    rw [skipBlanks_cons hblank, skipBlanks_cons hblank]
    exact .char hblank hquote h

theorem isBlank_of_skipBlanks (h : skipBlanks cs = c :: rest) : isBlank c = false := by
  have hhead := List.head?_dropWhile_not isBlank cs
  rw [show cs.dropWhile isBlank = c :: rest from h] at hhead
  exact hhead

/-- A text that starts with no blank starts the way the other does. -/
theorem Respaced.uncons (h : Respaced (c :: rest) ds) (hblank : isBlank c = false) :
    ∃ rest', ds = c :: rest' ∧ (c ≠ '"' → Respaced rest rest') := by
  cases h with
  | blanks _ _ hrun =>
    rw [isBlank_of_run hrun] at hblank
    cases hblank
  | name => exact ⟨_, rfl, fun hquote => absurd rfl hquote⟩
  | char _ _ h => exact ⟨_, rfl, fun _ => h⟩

/-- The next token of the one text is that of the other. -/
theorem Respaced.next (h : Respaced cs ds) (hskip : skipBlanks cs = c :: rest) (hquote : c ≠ '"') :
    ∃ rest', skipBlanks ds = c :: rest' ∧ Respaced rest rest' := by
  have hnext := h.skip
  rw [hskip] at hnext
  obtain ⟨rest', hskip', hrest⟩ := hnext.uncons (isBlank_of_skipBlanks hskip)
  exact ⟨rest', hskip', hrest hquote⟩

theorem Respaced.next_nil (h : Respaced cs ds) (hskip : skipBlanks cs = []) :
    skipBlanks ds = [] := by
  have hnext := h.skip
  rw [hskip] at hnext
  generalize skipBlanks ds = ds' at hnext
  cases hnext
  rfl

theorem Respaced.next_quote (h : Respaced cs ds) (hskip : skipBlanks cs = '"' :: rest) :
    ∃ inside behind behind', rest = inside ++ behind ∧ Quoted inside ∧
      skipBlanks ds = '"' :: (inside ++ behind') ∧ Respaced behind behind' := by
  have hnext := h.skip
  rw [hskip] at hnext
  generalize skipBlanks ds = ds' at hnext
  cases hnext with
  | blanks _ _ hrun => exact absurd (isBlank_of_run hrun) (by decide)
  | name hname h => exact ⟨_, _, _, rfl, hname, rfl, h⟩
  | char _ hquote => exact absurd rfl hquote

/-- Characters of a class that has no blanks and no quotes are the same in front of both texts. -/
theorem Respaced.span {p : Char → Bool} (hp : ∀ c, p c = true → isBlank c = false ∧ c ≠ '"')
    (h : Respaced cs ds) :
    cs.takeWhile p = ds.takeWhile p ∧ Respaced (cs.dropWhile p) (ds.dropWhile p) := by
  have blank : ∀ {c}, isBlank c = true → ¬ p c = true := fun hblank hc => by
    rw [(hp _ hc).1] at hblank
    cases hblank
  induction h with
  | nil => exact ⟨rfl, .nil⟩
  | blanks _ _ hrun hrun' hend h =>
    have hc := blank (isBlank_of_run hrun)
    have hd := blank (isBlank_of_run hrun')
    rw [List.takeWhile_cons_of_neg hc, List.takeWhile_cons_of_neg hd,
      List.dropWhile_cons_of_neg hc, List.dropWhile_cons_of_neg hd]
    exact ⟨rfl, .blanks _ _ hrun hrun' hend h⟩
  | name hname h =>
    have hquote : ¬ p '"' = true := fun hc => (hp _ hc).2 rfl
    rw [List.takeWhile_cons_of_neg hquote, List.takeWhile_cons_of_neg hquote,
      List.dropWhile_cons_of_neg hquote, List.dropWhile_cons_of_neg hquote]
    exact ⟨rfl, .name hname h⟩
  | @char c cs ds hblank hquote h ih =>
    by_cases hc : p c = true
    · rw [List.takeWhile_cons_of_pos hc, List.takeWhile_cons_of_pos hc,
        List.dropWhile_cons_of_pos hc, List.dropWhile_cons_of_pos hc, ih.1]
      exact ⟨rfl, ih.2⟩
    · rw [List.takeWhile_cons_of_neg hc, List.takeWhile_cons_of_neg hc,
        List.dropWhile_cons_of_neg hc, List.dropWhile_cons_of_neg hc]
      exact ⟨rfl, .char hblank hquote h⟩

end

/-! ### Indexes in front -/

/-- The text without a minus sign in front. -/
def unsigned : List Char → List Char
  | '-' :: rest => rest
  | rest => rest

/-- After an opening bracket: does an integer stand alone in front of the closing one, but for
characters of a class around it? -/
def indexAhead (p : Char → Bool) (cs : List Char) : Bool :=
  let digits := unsigned (cs.dropWhile p)
  digits.head?.any Char.isDigit &&
    ((digits.dropWhile Char.isDigit).dropWhile p).head?.any (· = ']')

/-- Where a character stands. -/
inductive Place where
  /-- An expression may start here. -/
  | front
  | behind
  /-- Within a quoted name. -/
  | quoted
  /-- Within a quoted name, behind a backslash. -/
  | escaped
  deriving DecidableEq

/-- The characters behind which an expression starts. -/
def openers : List Char := ['[', ',', '(', ':']

/-- The place behind a character. -/
def Place.after (p : Place) (c : Char) : Place :=
  match p with
  | quoted => if c = '"' then behind else if c = '\\' then escaped else quoted
  | escaped => quoted
  | _ => if isBlank c then p else if c = '"' then quoted else if c ∈ openers then front else behind

/-- Is every index in front spaced with nothing but spaces?  An index in front is an integer alone
in brackets where an expression may start. -/
def plainFronts : Place → List Char → Bool
  | _, [] => true
  | p, c :: cs =>
    (!(p = .front && c = '[' && indexAhead isBlank cs) || indexAhead isSpace cs) &&
      plainFronts (p.after c) cs

theorem digitsAhead_eq (digits : List Char) :
    (match digits with
      | d :: _ =>
        d.isDigit &&
          match (digits.dropWhile Char.isDigit).dropWhile isSpace with
          | ']' :: _ => true
          | _ => false
      | [] => false) =
    (digits.head?.any Char.isDigit &&
      ((digits.dropWhile Char.isDigit).dropWhile isSpace).head?.any (· = ']')) := by
  cases digits with
  | nil => rfl
  | cons d digits =>
    dsimp only
    generalize ((d :: digits).dropWhile Char.isDigit).dropWhile isSpace = rest
    refine congrArg (d.isDigit && ·) ?_
    split
    · rfl
    · rename_i hrest
      cases rest with
      | nil => rfl
      | cons c rest =>
        have hc : c ≠ ']' := by
          rintro rfl
          exact hrest _ rfl
        simp [hc]

theorem looksLikeIndex_eq (cs : List Char) : looksLikeIndex cs = indexAhead isSpace cs :=
  digitsAhead_eq (unsigned (cs.dropWhile isSpace))

section

variable {c : Char} {cs ds rest : List Char} {p : Place}

/-- Outside of quoted names. -/
def Place.Outside (p : Place) : Prop := p = front ∨ p = behind

theorem plainFronts_cons (h : p = .front → c ≠ '[') :
    plainFronts p (c :: cs) = plainFronts (p.after c) cs := by
  rw [plainFronts]
  by_cases hp : p = .front <;> by_cases hc : c = '[' <;> simp_all

theorem plainFronts_cons_inside (h : p ≠ .front) :
    plainFronts p (c :: cs) = plainFronts (p.after c) cs :=
  plainFronts_cons fun hp => absurd hp h

theorem plainFronts_skipBlanks (hp : p.Outside) (cs : List Char) :
    plainFronts p (skipBlanks cs) = plainFronts p cs := by
  induction cs with
  | nil => rfl
  | cons c cs ih =>
    by_cases hblank : isBlank c = true
    · have hafter : p.after c = p := by rcases hp with rfl | rfl <;> simp [Place.after, hblank]
      have hbracket : c ≠ '[' := by
        rintro rfl
        cases hblank
      rw [skipBlanks, List.dropWhile_cons_of_pos hblank, ← skipBlanks, ih,
        plainFronts_cons fun _ => hbracket, hafter]
    · rw [skipBlanks_cons (by simpa using hblank)]

/-- A token of one character, in a place outside of quoted names. -/
theorem Place.Outside.after (hp : p.Outside) (hblank : isBlank c = false) (hquote : c ≠ '"') :
    p.after c = if c ∈ openers then .front else .behind := by
  rcases hp with rfl | rfl <;> simp [Place.after, hblank, hquote]

theorem plainFronts_quoted {inside : List Char} (h : Quoted inside) (rest : List Char) :
    plainFronts .quoted (inside ++ rest) = plainFronts .behind rest := by
  induction h with
  | close => rfl
  | escaped d _ ih =>
    rw [List.cons_append, List.cons_append, plainFronts_cons_inside (p := .quoted) (by decide)]
    exact (plainFronts_cons_inside (p := .escaped) (by decide)).trans ih
  | @plain c inside hquote hback _ ih =>
    rw [List.cons_append, plainFronts_cons_inside (p := .quoted) (by decide)]
    simpa [Place.after, hquote, hback] using ih

/-- The characters of the class neither end a token nor open an expression. -/
def Inert (q : Char → Bool) : Prop :=
  ∀ c, q c = true → isBlank c = false ∧ c ≠ '"' ∧ c ∉ openers

theorem inert_continuesName : Inert continuesName := by
  intro c hc
  refine ⟨Bool.eq_false_iff.mpr fun hblank => ?_, ?_, fun hopens => ?_⟩
  · simp only [isBlank, Bool.or_eq_true, decide_eq_true_eq] at hblank
    rcases hblank with ((rfl | rfl) | rfl) | rfl <;> cases hc
  · rintro rfl
    cases hc
  · simp only [openers, List.mem_cons, List.not_mem_nil, or_false] at hopens
    rcases hopens with rfl | rfl | rfl | rfl <;> cases hc

theorem inert_isDigit : Inert Char.isDigit := fun c hc =>
  inert_continuesName c (by simp [continuesName, Char.isAlphanum, hc])

/-- What goes on with a name or a number leaves no place for an expression. -/
theorem plainFronts_dropWhile {q : Char → Bool} (hq : Inert q) (cs : List Char) :
    plainFronts .behind (cs.dropWhile q) = plainFronts .behind cs := by
  induction cs with
  | nil => rfl
  | cons c cs ih =>
    by_cases hc : q c = true
    · obtain ⟨hblank, hquote, hopens⟩ := hq c hc
      rw [List.dropWhile_cons_of_pos hc, ih, plainFronts_cons_inside (p := .behind) (by decide),
        Place.Outside.after (.inr rfl) hblank hquote, if_neg hopens]
    · rw [List.dropWhile_cons_of_neg hc]

/-- A name or a number is behind itself. -/
theorem plainFronts_word (hp : p.Outside) {q : Char → Bool} (hq : Inert q)
    (hword : cs.takeWhile q ≠ []) :
    plainFronts p cs = plainFronts .behind (cs.dropWhile q) := by
  cases cs with
  | nil => exact absurd rfl hword
  | cons c cs =>
    by_cases hc : q c = true
    · obtain ⟨hblank, hquote, hopens⟩ := hq c hc
      have hbracket : c ≠ '[' := by
        rintro rfl
        exact hopens (by decide)
      rw [plainFronts_cons fun _ => hbracket, hp.after hblank hquote, if_neg hopens,
        List.dropWhile_cons_of_pos hc, plainFronts_dropWhile hq]
    · exact absurd (List.takeWhile_cons_of_neg hc) hword

end

/-! ### Tokens -/

section

variable {c : Char} {cs ds rest : List Char} {p : Place} {name : String} {n : Node}

/-- The next token of the other text, behind an expression. -/
theorem Respaced.token (h : Respaced cs ds) (hskip : skipBlanks cs = c :: rest) (hquote : c ≠ '"') :
    ∃ rest', skipBlanks ds = c :: rest' ∧ Respaced rest rest' ∧
      plainFronts (if c ∈ openers then .front else .behind) rest' = plainFronts .behind ds := by
  have hbehind : Place.behind.Outside := .inr rfl
  obtain ⟨rest', hskip', hrest⟩ := h.next hskip hquote
  refine ⟨rest', hskip', hrest, ?_⟩
  rw [← plainFronts_skipBlanks hbehind ds, hskip', plainFronts_cons_inside (by decide),
    hbehind.after (isBlank_of_skipBlanks hskip) hquote]

/-- Behind an opener an expression starts. -/
theorem Respaced.opener (h : Respaced cs ds) (hskip : skipBlanks cs = c :: rest)
    (hopens : c ∈ openers) :
    ∃ rest', skipBlanks ds = c :: rest' ∧ Respaced rest rest' ∧
      plainFronts .front rest' = plainFronts .behind ds := by
  have hquote : c ≠ '"' := by
    rintro rfl
    exact absurd hopens (by decide)
  have htoken := h.token hskip hquote
  rwa [if_pos hopens] at htoken

/-- Behind any other token none does. -/
theorem Respaced.closer (h : Respaced cs ds) (hskip : skipBlanks cs = c :: rest) (hquote : c ≠ '"')
    (hcloses : c ∉ openers) :
    ∃ rest', skipBlanks ds = c :: rest' ∧ Respaced rest rest' ∧
      plainFronts .behind rest' = plainFronts .behind ds := by
  have htoken := h.token hskip hquote
  rwa [if_neg hcloses] at htoken

theorem expect_respaced (h : Respaced cs ds) (hquote : c ≠ '"')
    (hr : expect c cs = .ok ((), rest)) :
    ∃ rest', expect c ds = .ok ((), rest') ∧ Respaced rest rest' ∧
      plainFronts (if c ∈ openers then .front else .behind) rest' = plainFronts .behind ds := by
  unfold expect at hr
  split at hr
  · rename_i d rest' hskip
    split at hr
    · rename_i hd
      subst hd
      cases hr
      obtain ⟨rest', hskip', hrest, hplain⟩ := h.token hskip hquote
      refine ⟨rest', ?_, hrest, hplain⟩
      rw [expect, hskip']
      exact if_pos rfl
    · cases hr
  · cases hr

theorem quotedName_respaced {text : List Char} (h : Respaced cs ds) (hp : p.Outside)
    (hskip : skipBlanks cs = '"' :: text) (hr : quotedName text = .ok (name, rest)) :
    ∃ text' rest', skipBlanks ds = '"' :: text' ∧ quotedName text' = .ok (name, rest') ∧
      Respaced rest rest' ∧ plainFronts .behind rest' = plainFronts p ds := by
  obtain ⟨inside, behind, behind', rfl, hinside, hskip', hbehind⟩ := h.next_quote hskip
  unfold quotedName at hr
  rw [hinside.scan] at hr
  dsimp only at hr
  split at hr
  · rename_i hname
    cases hr
    refine ⟨_, behind', hskip', ?_, hbehind, ?_⟩
    · rw [quotedName, hinside.scan]
      dsimp only
      rw [hname]
    · rw [← plainFronts_quoted hinside, ← plainFronts_skipBlanks hp ds, hskip',
        plainFronts_cons fun _ => by decide]
      rcases hp with rfl | rfl <;> rfl
  · cases hr

/-- Words are the same in front of both texts. -/
theorem Respaced.word (h : Respaced cs ds) (hp : p.Outside) {q : Char → Bool} (hq : Inert q) :
    cs.takeWhile q = ds.takeWhile q ∧ Respaced (cs.dropWhile q) (ds.dropWhile q) ∧
      (cs.takeWhile q ≠ [] → plainFronts .behind (ds.dropWhile q) = plainFronts p ds) := by
  obtain ⟨htake, hdrop⟩ := h.span fun c hc => ⟨(hq c hc).1, (hq c hc).2.1⟩
  refine ⟨htake, hdrop, fun hword => ?_⟩
  rw [htake] at hword
  exact (plainFronts_word hp hq hword).symm

theorem not_minus_of_isBlank (h : isBlank c = true) (rest : List Char) : c :: rest ≠ '-' :: cs := by
  rintro ⟨⟩
  cases h

/-- Both texts start with a minus sign, or neither does. -/
theorem Respaced.sign (h : Respaced cs ds) :
    (∃ u v, cs = '-' :: u ∧ ds = '-' :: v ∧ Respaced u v) ∨
      ((∀ u, cs ≠ '-' :: u) ∧ ∀ v, ds ≠ '-' :: v) := by
  cases h with
  | nil => exact .inr ⟨nofun, nofun⟩
  | blanks _ _ hrun hrun' =>
    exact .inr ⟨fun _ => not_minus_of_isBlank (isBlank_of_run hrun) _,
      fun _ => not_minus_of_isBlank (isBlank_of_run hrun') _⟩
  | name => exact .inr ⟨nofun, nofun⟩
  | @char c cs ds _ _ h =>
    by_cases hc : c = '-'
    · subst hc
      exact .inl ⟨cs, ds, rfl, rfl, h⟩
    · exact .inr ⟨fun _ heq => hc (List.cons.inj heq).1, fun _ heq => hc (List.cons.inj heq).1⟩

theorem integerPart_of_ne (h : ∀ rest, cs ≠ '-' :: rest) :
    integerPart cs = (cs.takeWhile Char.isDigit, cs.dropWhile Char.isDigit) := by
  unfold integerPart
  split
  · exact absurd rfl (h _)
  · rfl

theorem integerPart_respaced (h : Respaced cs ds) (hp : p.Outside) :
    (integerPart cs).1 = (integerPart ds).1 ∧ Respaced (integerPart cs).2 (integerPart ds).2 ∧
      ((integerPart cs).1 ≠ [] → plainFronts .behind (integerPart ds).2 = plainFronts p ds) := by
  rcases h.sign with ⟨u, v, rfl, rfl, huv⟩ | ⟨hcs, hds⟩
  · obtain ⟨htake, hdrop, -⟩ := huv.word (.inr rfl) inert_isDigit
    refine ⟨congrArg ('-' :: ·) htake, hdrop, fun _ => ?_⟩
    rw [plainFronts_cons fun _ => by decide, hp.after (by decide) (by decide),
      if_neg (by decide)]
    exact plainFronts_dropWhile inert_isDigit v
  · rw [integerPart_of_ne hcs, integerPart_of_ne hds]
    exact h.word hp inert_isDigit

theorem index_respaced (h : Respaced cs ds) (hp : p.Outside) (hr : index cs = .ok (n, rest)) :
    ∃ rest', index ds = .ok (n, rest') ∧ Respaced rest rest' ∧
      plainFronts .behind rest' = plainFronts p ds := by
  obtain ⟨hdigits, hbehind, hplain⟩ := integerPart_respaced h.skip hp
  rw [plainFronts_skipBlanks hp] at hplain
  unfold index at hr
  dsimp only at hr
  split at hr
  · cases hr
  rename_i i hi
  have hne : (integerPart (skipBlanks cs)).1 ≠ [] := by
    intro hnil
    rw [hnil] at hi
    cases hi
  split at hr
  · rename_i hend
    cases hr
    obtain ⟨rest', hend', hrest, hplain'⟩ :=
      expect_respaced hbehind (by decide) hend
    refine ⟨rest', ?_, hrest, hplain'.trans (hplain hne)⟩
    rw [index]
    dsimp only
    rw [← hdigits, hi]
    dsimp only
    rw [hend']
  · cases hr

theorem identifier_respaced (h : Respaced (c :: cs) (c :: ds)) (hp : p.Outside)
    (hstarts : startsName c = true) :
    (identifier (c :: cs)).1 = (identifier (c :: ds)).1 ∧
      Respaced (identifier (c :: cs)).2 (identifier (c :: ds)).2 ∧
      plainFronts .behind (identifier (c :: ds)).2 = plainFronts p (c :: ds) := by
  obtain ⟨htake, hdrop, hplain⟩ := h.word hp inert_continuesName
  refine ⟨congrArg String.ofList htake, hdrop, hplain ?_⟩
  rw [List.takeWhile_cons_of_pos (continuesName_of_startsName hstarts)]
  exact List.cons_ne_nil _ _

theorem entryName_respaced (h : Respaced cs ds) (hp : p.Outside)
    (hr : entryName cs = .ok (name, rest)) :
    ∃ rest', entryName ds = .ok (name, rest') ∧ Respaced rest rest' ∧
      plainFronts .behind rest' = plainFronts p ds := by
  unfold entryName at hr
  split at hr
  · cases hr
  rename_i c text hskip
  by_cases hquote : c = '"'
  · subst hquote
    rw [if_pos rfl] at hr
    obtain ⟨text', rest', hskip', hname, hrest, hplain⟩ := quotedName_respaced h hp hskip hr
    refine ⟨rest', ?_, hrest, hplain⟩
    rw [entryName, hskip']
    exact (if_pos rfl).trans hname
  rw [if_neg hquote] at hr
  split at hr
  · rename_i hstarts
    obtain ⟨text', hskip', -⟩ := h.next hskip hquote
    have hboth := h.skip
    rw [hskip, hskip'] at hboth
    obtain ⟨hname, hrest, hplain⟩ := identifier_respaced hboth hp hstarts
    have houtside := plainFronts_skipBlanks hp ds
    rw [hskip'] at houtside
    cases hr
    refine ⟨(identifier (c :: text')).2, ?_, hrest, hplain.trans houtside⟩
    rw [entryName, hskip']
    dsimp only
    rw [if_neg hquote, if_pos hstarts]
    exact congrArg (fun name => Except.ok (name, (identifier (c :: text')).2)) hname.symm
  · cases hr

/-! ### Integers ahead -/

theorem Respaced.head?_any {q : Char → Bool} (hq : ∀ c, q c = true → isBlank c = false)
    (h : Respaced cs ds) : cs.head?.any q = ds.head?.any q := by
  have blank : ∀ {c}, isBlank c = true → q c = false := fun hblank =>
    Bool.eq_false_iff.mpr fun hc => by
      rw [hq _ hc] at hblank
      cases hblank
  cases h with
  | nil => rfl
  | blanks _ _ hrun hrun' =>
    simp [blank (isBlank_of_run hrun), blank (isBlank_of_run hrun')]
  | name => rfl
  | char => rfl

theorem unsigned_of_ne (h : ∀ rest, cs ≠ '-' :: rest) : unsigned cs = cs := by
  unfold unsigned
  split
  · exact absurd rfl (h _)
  · rfl

theorem Respaced.unsigned (h : Respaced cs ds) : Respaced (unsigned cs) (unsigned ds) := by
  rcases h.sign with ⟨u, v, rfl, rfl, huv⟩ | ⟨hcs, hds⟩
  · exact huv
  · rw [unsigned_of_ne hcs, unsigned_of_ne hds]
    exact h

/-- With any blanks allowed around it, an integer is ahead in both texts or in neither. -/
theorem indexAhead_respaced (h : Respaced cs ds) :
    indexAhead isBlank cs = indexAhead isBlank ds := by
  have hdigits := h.skip.unsigned
  have hbehind := (hdigits.word (.inr rfl) inert_isDigit).2.1.skip
  have hhead := hdigits.head?_any fun c hc => (inert_isDigit c hc).1
  have hclose := hbehind.head?_any (q := (· = ']')) fun c hc => by
    rw [of_decide_eq_true hc]
    decide
  exact congrArg₂ (· && ·) hhead hclose

/-- What stands behind spaces stands behind blanks, if it is no blank. -/
theorem skipBlanks_of_spaces (h : cs.dropWhile isSpace = c :: rest) (hc : isBlank c = false) :
    skipBlanks cs = c :: rest := by
  induction cs with
  | nil => cases h
  | cons d cs ih =>
    by_cases hspace : isSpace d = true
    · rw [List.dropWhile_cons_of_pos hspace] at h
      have hblank : isBlank d = true := by
        rw [of_decide_eq_true hspace]
        decide
      rw [skipBlanks, List.dropWhile_cons_of_pos hblank]
      exact ih h
    · rw [List.dropWhile_cons_of_neg hspace] at h
      rw [h]
      exact skipBlanks_cons hc rest

theorem exists_of_head?_any {q : Char → Bool} (h : cs.head?.any q = true) :
    ∃ c rest, cs = c :: rest ∧ q c = true := by
  cases cs with
  | nil => cases h
  | cons c rest => exact ⟨c, rest, rfl, h⟩

/-- A digit, or a minus sign and a digit. -/
theorem head_of_unsigned (h : (Selector.unsigned cs).head?.any Char.isDigit = true) :
    ∃ c rest, cs = c :: rest ∧ isBlank c = false ∧ (c.isDigit = true ∨ c = '-') := by
  by_cases hminus : ∃ rest, cs = '-' :: rest
  · obtain ⟨rest, rfl⟩ := hminus
    exact ⟨_, rest, rfl, by decide, .inr rfl⟩
  · rw [unsigned_of_ne fun rest heq => hminus ⟨rest, heq⟩] at h
    obtain ⟨c, rest, rfl, hc⟩ := exists_of_head?_any h
    exact ⟨c, rest, rfl, (inert_isDigit c hc).1, .inl hc⟩

theorem indexAhead_blanks (h : indexAhead isSpace cs = true) : indexAhead isBlank cs = true := by
  unfold indexAhead at h ⊢
  dsimp only at h ⊢
  rw [Bool.and_eq_true] at h ⊢
  obtain ⟨hdigit, hclose⟩ := h
  obtain ⟨c, rest, hspaces, hblank, -⟩ := head_of_unsigned hdigit
  have hskip : cs.dropWhile isBlank = c :: rest := skipBlanks_of_spaces hspaces hblank
  rw [hspaces] at hdigit hclose
  rw [hskip]
  refine ⟨hdigit, ?_⟩
  obtain ⟨d, rest', hspaces', hd⟩ := exists_of_head?_any hclose
  rw [show List.dropWhile isBlank _ = d :: rest' from
    skipBlanks_of_spaces hspaces' (by rw [of_decide_eq_true hd]; decide)]
  exact hd

/-- The rule refuses an integer on its own. -/
def Refuses (inner : Rule Node) : Prop :=
  ∀ cs, indexAhead isBlank cs = true → ∃ s, inner cs = .error s

/-- No expression starts with a digit or a minus sign. -/
theorem not_primary (hc : c.isDigit = true ∨ c = '-') :
    c ≠ '[' ∧ c ≠ '\x7b' ∧ c ≠ '"' ∧ c ≠ '@' ∧ ¬ startsName c = true := by
  rcases hc with hc | rfl
  · exact Text.forall_digit (p := fun c => c ≠ '[' ∧ c ≠ '\x7b' ∧ c ≠ '"' ∧ c ≠ '@' ∧
      ¬ startsName c = true) (by decide) hc
  · decide

theorem refuses_expression (depth : Nat) : Refuses (expression depth) := by
  intro cs h
  cases depth with
  | zero => exact ⟨_, rfl⟩
  | succ depth =>
    unfold indexAhead at h
    dsimp only at h
    rw [Bool.and_eq_true] at h
    obtain ⟨c, rest, hskip, -, hc⟩ := head_of_unsigned h.1
    obtain ⟨hbracket, hbrace, hquote, hat, hname⟩ := not_primary hc
    have hprimary : primary (expression depth) cs = .error (stop .expectedPrimary (c :: rest)) := by
      rw [primary, show skipBlanks cs = c :: rest from hskip]
      dsimp only
      rw [if_neg hbracket, if_neg hbrace, if_neg hquote, if_neg hat, if_neg hname]
    rw [expression, expressionWith, hprimary]
    exact ⟨_, rfl⟩

end

end AtMostOnce.Selector
