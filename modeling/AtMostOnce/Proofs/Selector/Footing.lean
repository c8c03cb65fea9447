/-
Where the cursor stands.

Between two rules the cursor stands in front of a character or at the end of the source
(`Stands`), and there it sees as a byte what the rules on texts see as a character.  Inside a
quoted name it need not: a backslash takes one byte along, which may be the first of several, and
the next byte is then one in the middle of a character (`Amid`).  Such bytes are no quotes and no
backslashes, so they are passed one by one up to the next character, and the quote that closes the
name is found where it is (`closing_closesAt`).  At the end of the source a backslash takes the
cursor one byte past the end, where no name is closed any more.

A scan agrees with a rule if it makes the same of the source, and all that it has marked is within
the source (`Agrees`).
-/
import AtMostOnce.Proofs.Selector.Cursor
import AtMostOnce.Proofs.Selector.Respaced

namespace AtMostOnce.Selector

open AtMostOnce.Json

/-! ### Quoted names as JSON -/

theorem scanQuoted_eq_append {cs taken rest : List Char} (h : scanQuoted cs = .ok (taken, rest)) :
    cs = taken ++ rest := by
  fun_induction scanQuoted cs generalizing taken rest with
  | case1 => cases h
  | case2 cs =>
    cases h
    rfl
  | case3 => cases h
  | case4 d cs inside rest' hr _ ih =>
    cases h
    rw [ih hr]
    rfl
  | case5 => cases h
  | case6 c cs _ _ inside rest' hr ih =>
    cases h
    rw [ih hr]
    rfl
  | case7 => cases h

/-- What stands between quotes is read as a JSON string. -/
theorem parse_string (inside : List Char) :
    Format.string.parse (String.ofList ('"' :: inside)) =
      match Json.whole stringLiteral inside with
      | .ok name => .ok (.string name)
      | .error f => .error f := by
  have hvalue : valueWith none ('"' :: inside) = mapReader .string stringLiteral inside := rfl
  have hread : Format.string.read maxDepth ('"' :: inside) =
      mapReader .string stringLiteral inside := by
    rw [show Format.string.read maxDepth = Format.readScalar "a string" (· = '"') _ from rfl,
      Format.readScalar, show skipBlanks ('"' :: inside) = '"' :: inside from rfl]
    dsimp only
    rw [if_pos (by decide), hvalue, mapReader]
    cases stringLiteral inside with
    | ok p => rfl
    | error f => rfl
  rw [Format.parse, Json.whole, Json.whole, String.toList_ofList, hread, mapReader]
  cases stringLiteral inside with
  | error f => rfl
  | ok p =>
    obtain ⟨name, rest⟩ := p
    dsimp only
    split <;> rfl

/-! ### Lengths in bytes -/

theorem byteLength_lt {cs rest : List Char} (h : Behind cs rest) :
    byteLength rest < byteLength cs := by
  obtain ⟨taken, rfl⟩ := h.suffix
  have hne : taken ≠ [] := by
    rintro rfl
    exact Nat.lt_irrefl _ h.shorter
  obtain ⟨c, taken, rfl⟩ := List.exists_cons_of_ne_nil hne
  have hpos : 0 < byteLength (c :: taken) := Nat.add_pos_left c.utf8Size_pos _
  rw [byteLength_append]
  omega

namespace Cursor

open AtMostOnce.Text (octets octetsOf lead IsAscii OnAscii octets_eq length_octets
  length_flatMap_octetsOf byteLength_toList length_le_byteLength octetsOf_ascii utf8Size_ascii
  flatMap_octetsOf_cons length_tail_octetsOf not_isAscii_of_mem_tail lead_eq_iff dropWhile_octets
  onAscii_eq onAscii_isDigit onAscii_isAlpha)

variable {source : String} {st st' : State} {cs mid rest : List Char} {α β : Type}

/-- All that was marked is within the source. -/
def Clean (source : String) (st : State) : Prop := ∀ m ∈ st.marks, m.Within source

theorem Clean.mark {m : Mark} (h : Clean source st) (hm : m.Within source) (offset : Nat) :
    Clean source ⟨offset, st.marks ++ [m]⟩ := by
  intro m' hm'
  rcases List.mem_append.mp hm' with hm' | hm'
  · exact h m' hm'
  · rw [List.mem_singleton.mp hm']
    exact hm

/-! ### What the scans do -/

section

variable (st)

theorem run_offset : offset.run st = .ok st.offset st := rfl

theorem run_mark (m : Mark) : (mark m).run st = .ok () { st with marks := st.marks ++ [m] } := rfl

theorem run_advance (count : Nat) : (advance count).run st =
    .ok () ⟨st.offset + count, st.marks ++ [.moved (st.offset + count)]⟩ := rfl

theorem run_refuse (cause : Cause) : (refuse source cause : Scan α).run st =
    .error (.refused ⟨source, st.offset, cause.text⟩) st := rfl

theorem run_peek : (peek source).run st = .ok (octets source)[st.offset]? st := rfl

theorem run_cut? (start : Nat) : (cut? source start).run st =
    .ok (Text.between? source start st.offset)
      { st with marks := st.marks ++ [.cut start st.offset] } := rfl

theorem run_taking (scan : Scan α) : (taking scan).run st =
    match scan.run st with
    | .ok a st' => .ok a { st' with marks := st'.marks ++ [.took st.offset st'.offset] }
    | .error e st' => .error e st' := by
  rw [taking, EStateM.run_bind, run_offset]
  dsimp only
  rw [EStateM.run_bind]
  cases scan.run st <;> rfl

end

theorem run_bind_ok {scan : Scan α} {a : α} (h : scan.run st = .ok a st') (next : α → Scan β) :
    (scan >>= next).run st = (next a).run st' := by
  rw [EStateM.run_bind, h]

/-! ### Between characters -/

/-- The cursor stands in front of an end of the source. -/
structure Stands (source : String) (cs : List Char) (st : State) : Prop where
  suffix : cs <:+ source.toList
  offset : st.offset + byteLength cs = source.utf8ByteSize
  clean : Clean source st

theorem stands_start (source : String) : Stands source source.toList ⟨0, []⟩ :=
  ⟨List.suffix_rfl, by rw [byteLength_toList]; exact Nat.zero_add _, nofun⟩

namespace Stands

theorem le (h : Stands source cs st) : st.offset ≤ source.utf8ByteSize :=
  h.offset ▸ Nat.le_add_right _ _

theorem length_le (h : Stands source cs st) : cs.length ≤ source.utf8ByteSize := by
  have := h.offset
  have := length_le_byteLength cs
  omega

theorem position (h : Stands source cs st) (cause : Cause) :
    (stop cause cs).position source.toList = st.offset := by
  have hsize := h.offset
  rw [← byteLength_toList] at hsize
  show byteLength source.toList - byteLength cs + 0 = st.offset
  omega

/-- The cursor is between two characters. -/
theorem valid (h : Stands source cs st) : String.Pos.Raw.IsValid source ⟨st.offset⟩ := by
  rw [← h.position .trailingInput]
  exact Stop.position_before h.suffix

/-- What is ahead of the cursor in bytes. -/
theorem octets_drop (h : Stands source cs st) :
    (octets source).drop st.offset = cs.flatMap octetsOf := by
  obtain ⟨taken, htaken⟩ := h.suffix
  have hsize := h.offset
  rw [← byteLength_toList, ← htaken, byteLength_append] at hsize
  have hoffset : st.offset = (taken.flatMap octetsOf).length := by
    rw [length_flatMap_octetsOf]
    omega
  rw [octets_eq, ← htaken, List.flatMap_append, hoffset, List.drop_left]

theorem peek (h : Stands source cs st) : (octets source)[st.offset]? = cs.head?.map lead := by
  rw [← List.head?_drop, h.octets_drop]
  cases cs with
  | nil => rfl
  | cons c cs => rw [flatMap_octetsOf_cons]; rfl

/-- The cursor stands further on, and one mark was left. -/
theorem move (h : Stands source cs st) {offset : Nat} {m : Mark} (hm : m.Within source)
    (hrest : rest <:+ cs) (hoffset : offset + byteLength rest = st.offset + byteLength cs) :
    Stands source rest ⟨offset, st.marks ++ [m]⟩ :=
  ⟨hrest.trans h.suffix, hoffset.trans h.offset, h.clean.mark hm _⟩

theorem mark (h : Stands source cs st) {m : Mark} (hm : m.Within source) :
    Stands source cs { st with marks := st.marks ++ [m] } := h.move hm List.suffix_rfl rfl

theorem advance (h : Stands source cs st) (hrest : rest <:+ cs) {count : Nat}
    (hcount : count + byteLength rest = byteLength cs) :
    Stands source rest ⟨st.offset + count, st.marks ++ [.moved (st.offset + count)]⟩ := by
  refine h.move ?_ hrest (by omega)
  have := h.offset
  show st.offset + count ≤ source.utf8ByteSize + 1
  omega

theorem advance_ascii {c : Char} (h : Stands source (c :: rest) st) (hc : IsAscii c) :
    Stands source rest ⟨st.offset + 1, st.marks ++ [.moved (st.offset + 1)]⟩ := by
  refine h.advance (List.suffix_cons c rest) ?_
  rw [byteLength, utf8Size_ascii hc]

theorem skip (h : Stands source cs st) {p : Char → Bool} (hp : OnAscii p) :
    ∃ st', (Cursor.skip source p).run st = .ok () st' ∧ Stands source (cs.dropWhile p) st' := by
  refine ⟨_, rfl, h.advance (List.dropWhile_suffix _) ?_⟩
  rw [h.octets_drop, ← length_flatMap_octetsOf, ← length_flatMap_octetsOf,
    ← dropWhile_octets hp, ← List.length_append, List.takeWhile_append_dropWhile]

/-- What was passed on the way is the text between the two places. -/
theorem between? (h : Stands source (mid ++ rest) st) (h' : Stands source rest st') :
    Text.between? source st.offset st'.offset = some (String.ofList mid) := by
  obtain ⟨taken, htaken⟩ := h.suffix
  have htext : source = String.ofList taken ++ String.ofList mid ++ String.ofList rest := by
    rw [← String.ofList_append, ← String.ofList_append, List.append_assoc, htaken,
      String.ofList_toList]
  have hsize := h.offset
  have hsize' := h'.offset
  rw [← byteLength_toList, ← htaken] at hsize hsize'
  simp only [byteLength_append] at hsize hsize'
  have hstart : st.offset = (String.ofList taken).utf8ByteSize := by
    rw [utf8ByteSize_ofList]
    omega
  have hstop : st'.offset = (String.ofList taken ++ String.ofList mid).utf8ByteSize := by
    rw [String.utf8ByteSize_append, utf8ByteSize_ofList, utf8ByteSize_ofList]
    omega
  rw [hstart, hstop, htext]
  exact Text.between?_append _ _ _

/-- The mark of the cut from one place to the other. -/
theorem cutting (h : Stands source (mid ++ rest) st) (h' : Stands source rest st') :
    Stands source rest { st' with marks := st'.marks ++ [.cut st.offset st'.offset] } := by
  refine h'.mark ⟨?_, h'.le, h.valid, h'.valid⟩
  have := h.offset
  have := h'.offset
  rw [byteLength_append] at *
  omega

theorem cut (h : Stands source (mid ++ rest) st) (h' : Stands source rest st') :
    ∃ st'', (Cursor.cut source st.offset).run st' = .ok (String.ofList mid) st'' ∧
      Stands source rest st'' := by
  refine ⟨_, ?_, h.cutting h'⟩
  rw [Cursor.cut, run_bind_ok (run_cut? _ _), h.between? h']
  rfl

/-- The mark of a rule that has taken something. -/
theorem taking (h : Stands source cs st) (h' : Stands source rest st') (hb : Behind cs rest) :
    Stands source rest { st' with marks := st'.marks ++ [.took st.offset st'.offset] } := by
  refine h'.mark ⟨?_, h'.le⟩
  have := h.offset
  have := h'.offset
  have := byteLength_lt hb
  omega

theorem atEnd (h : Stands source cs st) :
    (Cursor.atEnd source).run st = .ok (decide (cs = [])) st := by
  have hsize := h.offset
  have hend : source.utf8ByteSize ≤ st.offset ↔ cs = [] := by
    constructor
    · intro hle
      have := length_le_byteLength cs
      exact List.eq_nil_of_length_eq_zero (by omega)
    · rintro rfl
      exact Nat.le_of_eq hsize.symm
  rw [Cursor.atEnd, run_bind_ok (run_offset st)]
  simp only [hend]
  rfl

end Stands

/-! ### Agreement with the rules -/

/-- The scan has come to what the rule says: the same, in front of the same rest, or the same
fault at the same place. -/
def Agrees (source : String) : Except Stop (α × List Char) → EStateM.Result Halt State α → Prop
  | .ok (a, rest), r => ∃ st, r = .ok a st ∧ Stands source rest st
  | .error s, r =>
    ∃ st, r = .error (.refused ⟨source, s.position source.toList, s.cause.text⟩) st ∧
      Clean source st

theorem agrees_pure {a : α} (h : Stands source cs st) :
    Agrees source (.ok (a, cs)) ((pure a : Scan α).run st) := ⟨st, rfl, h⟩

theorem agrees_advance {c : Char} {a : α} (h : Stands source (c :: rest) st) (hc : IsAscii c) :
    Agrees source (.ok (a, rest)) ((Cursor.advance 1 >>= fun _ => pure a : Scan α).run st) :=
  ⟨_, rfl, h.advance_ascii hc⟩

theorem agrees_stop (h : Stands source cs st) (cause : Cause) :
    Agrees source (.error (stop cause cs) : Except Stop (α × List Char))
      ((refuse source cause : Scan α).run st) :=
  ⟨st, by rw [run_refuse, h.position]; rfl, h.clean⟩

/-- One after the other; a fault of the first is the fault of both. -/
theorem Agrees.bind {x : Except Stop (α × List Char)} {y : Except Stop (β × List Char)}
    {scan : Scan α} {next : α → Scan β} (h : Agrees source x (scan.run st))
    (hnext : ∀ a rest st', x = .ok (a, rest) → Stands source rest st' →
      Agrees source y ((next a).run st'))
    (herror : ∀ s, x = .error s → y = .error s := by intro s hs; simp only [hs]) :
    Agrees source y ((scan >>= next).run st) := by
  cases x with
  | error s =>
    obtain ⟨st', hr, hclean⟩ := h
    rw [herror s rfl]
    exact ⟨st', by rw [EStateM.run_bind, hr], hclean⟩
  | ok p =>
    obtain ⟨st', hr, hat⟩ := h
    rw [run_bind_ok hr]
    exact hnext p.1 p.2 st' rfl hat

theorem Agrees.taking {x : Except Stop (α × List Char)} {scan : Scan α}
    (hat : Stands source cs st) (hx : Ends cs x) (h : Agrees source x (scan.run st)) :
    Agrees source x ((Cursor.taking scan).run st) := by
  rw [run_taking]
  cases x with
  | error s =>
    obtain ⟨st', hr, hclean⟩ := h
    rw [hr]
    exact ⟨st', rfl, hclean⟩
  | ok p =>
    obtain ⟨st', hr, hat'⟩ := h
    rw [hr]
    exact ⟨_, rfl, hat.taking hat' hx⟩

/-! ### Blanks, single characters and identifiers -/

theorem onAscii_isBlank : OnAscii isBlank := by
  intro c hc
  simp only [isBlank, Bool.or_eq_true, decide_eq_true_eq] at hc
  rcases hc with ((rfl | rfl) | rfl) | rfl <;> decide

theorem onAscii_startsName : OnAscii startsName := onAscii_isAlpha.or (onAscii_eq (by decide))

theorem onAscii_continuesName : OnAscii continuesName :=
  (onAscii_isAlpha.or onAscii_isDigit).or (onAscii_eq (by decide))

theorem isAscii_backslash : IsAscii '\\' := by decide

theorem isAscii_quote : IsAscii '"' := by decide

theorem Stands.skipBlanks (h : Stands source cs st) :
    ∃ st', (Cursor.skip source isBlank).run st = .ok () st' ∧
      Stands source (Json.skipBlanks cs) st' := h.skip onAscii_isBlank

/-- Past the blanks, the next byte is the first of the next character. -/
theorem Agrees.look {y : Except Stop (β × List Char)} {next : Option Char → Scan β}
    (h : Stands source cs st)
    (hnil : ∀ st', skipBlanks cs = [] → Stands source [] st' →
      Agrees source y ((next none).run st'))
    (hcons : ∀ c rest st', skipBlanks cs = c :: rest → Stands source (c :: rest) st' →
      Agrees source y ((next (some (lead c))).run st')) :
    Agrees source y ((Cursor.skip source isBlank >>= fun _ => Cursor.peek source >>= next).run
      st) := by
  obtain ⟨st', hblanks, hat⟩ := h.skipBlanks
  rw [run_bind_ok hblanks, run_bind_ok (run_peek _), hat.peek]
  cases hskip : skipBlanks cs with
  | nil => exact hnil st' hskip (hskip ▸ hat)
  | cons c rest => exact hcons c rest st' hskip (hskip ▸ hat)

theorem expect_agrees {c : Char} (hc : IsAscii c) (h : Stands source cs st) :
    Agrees source (Selector.expect c cs) ((expect source c).run st) := by
  refine Agrees.taking h (placed_expect c cs) (Agrees.look h ?_ ?_)
  · intro st' hskip hat
    rw [Selector.expect, hskip]
    exact agrees_stop hat _
  · intro d rest st' hskip hat
    rw [Selector.expect, hskip]
    simp only [Option.some_inj, lead_eq_iff hc]
    split
    · rename_i hd
      subst hd
      exact ⟨_, rfl, hat.advance_ascii hc⟩
    · exact agrees_stop hat _

theorem expect_run {c : Char} (h : Stands source (c :: cs) st) (hc : IsAscii c)
    (hblank : isBlank c = false) :
    ∃ st', (expect source c).run st = .ok () st' ∧ Stands source cs st' := by
  have hagrees := expect_agrees hc h
  rw [Selector.expect, skipBlanks_cons hblank] at hagrees
  dsimp only at hagrees
  rw [if_pos rfl] at hagrees
  exact hagrees

theorem identifier_agrees (h : Stands source cs st) (hcs : Behind cs (Selector.identifier cs).2) :
    Agrees source (.ok (Selector.identifier cs)) ((identifier source).run st) := by
  refine Agrees.taking h hcs ?_
  obtain ⟨st₁, hskip, hat⟩ := h.skip onAscii_continuesName
  have hsplit := h
  rw [← List.takeWhile_append_dropWhile (p := continuesName) (l := cs)] at hsplit
  obtain ⟨st₂, hcut, hat⟩ := hsplit.cut hat
  rw [run_bind_ok (run_offset st), run_bind_ok hskip]
  exact ⟨st₂, hcut, hat⟩

/-! ### Amid a character -/

/-- The cursor stands in front of the last bytes of a character, and of the text behind it. -/
structure Amid (source : String) (bytes inside : List Char) (st : State) : Prop where
  ahead : (octets source).drop st.offset = bytes ++ inside.flatMap octetsOf
  foreign : ∀ o ∈ bytes, ¬ IsAscii o
  /-- A backslash at the end of the source takes the cursor past it. -/
  le : st.offset ≤ source.utf8ByteSize + 1
  clean : Clean source st

theorem Stands.amid (h : Stands source cs st) : Amid source [] cs st :=
  ⟨h.octets_drop, nofun, Nat.le_succ_of_le h.le, h.clean⟩

namespace Amid

variable {bytes bytes' inside inside' : List Char} {c d : Char}

theorem left (h : Amid source bytes inside st) :
    source.utf8ByteSize - st.offset = bytes.length + byteLength inside := by
  rw [← length_octets, ← List.length_drop, h.ahead, List.length_append, length_flatMap_octetsOf]

theorem peek (h : Amid source bytes inside st) :
    (octets source)[st.offset]? = (bytes ++ inside.flatMap octetsOf).head? := by
  rw [← h.ahead, List.head?_drop]

theorem advance (h : Amid source bytes inside st) {count : Nat}
    (hdrop : (bytes ++ inside.flatMap octetsOf).drop count =
      bytes' ++ inside'.flatMap octetsOf)
    (hforeign : ∀ o ∈ bytes', ¬ IsAscii o) (hle : st.offset + count ≤ source.utf8ByteSize + 1) :
    Amid source bytes' inside'
      ⟨st.offset + count, st.marks ++ [.moved (st.offset + count)]⟩ where
  ahead := by rw [← hdrop, ← h.ahead, List.drop_drop]
  foreign := hforeign
  le := hle
  clean := h.clean.mark (m := .moved _) hle _

/-- One more byte of a character is passed. -/
theorem pass (h : Amid source (c :: bytes) inside st) :
    Amid source bytes inside ⟨st.offset + 1, st.marks ++ [.moved (st.offset + 1)]⟩ := by
  have hleft := h.left
  rw [List.length_cons] at hleft
  exact h.advance rfl (fun o ho => h.foreign o (List.mem_cons_of_mem _ ho)) (by omega)

/-- The first byte of a character is passed, and its others are left. -/
theorem enter (h : Amid source [] (c :: inside) st) :
    Amid source (octetsOf c).tail inside ⟨st.offset + 1, st.marks ++ [.moved (st.offset + 1)]⟩ := by
  have hleft := h.left
  have hpos := c.utf8Size_pos
  rw [byteLength] at hleft
  refine h.advance ?_ (fun o ho => not_isAscii_of_mem_tail ho) (by omega)
  rw [List.nil_append, flatMap_octetsOf_cons, List.drop_succ_cons, List.drop_zero]

/-- A character of one byte and the first byte of the next are passed. -/
theorem jump (h : Amid source [] (c :: d :: inside) st) (hc : IsAscii c) :
    Amid source (octetsOf d).tail inside ⟨st.offset + 2, st.marks ++ [.moved (st.offset + 2)]⟩ := by
  have hleft := h.left
  have hposc := c.utf8Size_pos
  have hposd := d.utf8Size_pos
  rw [byteLength, byteLength] at hleft
  refine h.advance ?_ (fun o ho => not_isAscii_of_mem_tail ho) (by omega)
  rw [List.nil_append, List.flatMap_cons, octetsOf_ascii hc, flatMap_octetsOf_cons]
  rfl

/-- The last character of the source is of one byte, and two are passed. -/
theorem overshoot (h : Amid source [] [c] st) (hc : IsAscii c) :
    Amid source [] [] ⟨st.offset + 2, st.marks ++ [.moved (st.offset + 2)]⟩ := by
  have hleft := h.left
  have hpos := c.utf8Size_pos
  rw [byteLength, byteLength] at hleft
  refine h.advance ?_ (List.forall_mem_nil _) (by omega)
  rw [List.nil_append, List.flatMap_cons, octetsOf_ascii hc]
  rfl

end Amid

/-! ### Quoted names -/

/-- The closing quote is looked for from `start` on, where `left` more bytes are characters of the
source: the cursor stands behind it, or past the end of the source. -/
def ClosesAt (source : String) (start left : Nat) :
    Except Stop (List Char × List Char) → EStateM.Result Halt State Unit → Prop
  | .ok (taken, _), r =>
    ∃ st, r = .ok () st ∧ Clean source st ∧ st.offset = start + byteLength taken
  | .error s, r =>
    ∃ st, r = .error (.refused ⟨source, start + left + s.ahead, s.cause.text⟩) st ∧
      Clean source st

/-- The characters in front of what is scanned belong to what is taken. -/
theorem ClosesAt.front {front : List Char} {start left : Nat}
    {x : Except Stop (List Char × List Char)} {r : EStateM.Result Halt State Unit} :
    ClosesAt source (start + byteLength front) left x r →
      ClosesAt source start (byteLength front + left)
        (match x with
          | .ok (inside, rest) => .ok (front ++ inside, rest)
          | .error s => .error s) r := by
  intro h
  cases x with
  | ok p =>
    obtain ⟨st', hr, hclean, hoffset⟩ := h
    refine ⟨st', hr, hclean, ?_⟩
    rw [hoffset, byteLength_append, Nat.add_assoc]
  | error s =>
    obtain ⟨st', hr, hclean⟩ := h
    rw [Nat.add_assoc start] at hr
    exact ⟨st', hr, hclean⟩

/-- The closing quote is found where it is, whatever bytes of a character stand in front. -/
theorem closing_closesAt {fuel : Nat} {bytes inside : List Char} (h : Amid source bytes inside st)
    (hfuel : bytes.length + byteLength inside < fuel) :
    ClosesAt source (st.offset + bytes.length) (byteLength inside) (scanQuoted inside)
      ((closing source fuel).run st) := by
  induction fuel generalizing bytes inside st with
  | zero => exact absurd hfuel (Nat.not_lt_zero _)
  | succ fuel ih =>
    unfold closing
    rw [run_bind_ok (run_peek st), h.peek]
    cases bytes with
    | cons o bytes =>
      have ho : ¬ IsAscii o := h.foreign o List.mem_cons_self
      have hback : o ≠ '\\' := fun heq => ho (heq ▸ isAscii_backslash)
      have hquote : o ≠ '"' := fun heq => ho (heq ▸ isAscii_quote)
      rw [List.length_cons] at hfuel ⊢
      simp only [List.cons_append, List.head?_cons, hback, hquote, if_false]
      rw [run_bind_ok (run_advance st 1), ← Nat.add_assoc, Nat.add_right_comm st.offset]
      exact ih h.pass (by omega)
    | nil =>
      cases inside with
      | nil => exact ⟨st, rfl, h.clean⟩
      | cons c inside =>
        have htail := length_tail_octetsOf c
        rw [List.length_nil, byteLength] at hfuel
        simp only [flatMap_octetsOf_cons, List.nil_append, List.head?_cons,
          lead_eq_iff isAscii_backslash, lead_eq_iff isAscii_quote, List.length_nil, Nat.add_zero]
        unfold scanQuoted
        by_cases hback : c = '\\'
        · subst hback
          have hone : ('\\' : Char).utf8Size = 1 := rfl
          rw [if_pos rfl, if_neg (by decide), if_pos rfl, run_bind_ok (run_advance st 2)]
          cases inside with
          | nil => exact ih (h.overshoot isAscii_backslash) (by
              rw [List.length_nil]
              omega)
          | cons d inside =>
            have hd := length_tail_octetsOf d
            rw [byteLength] at hfuel
            have hnext := ih (h.jump isAscii_backslash) (by omega)
            have hstart : st.offset + 2 + (octetsOf d).tail.length =
                st.offset + byteLength ['\\', d] := by
              simp only [byteLength]
              omega
            simp only [hstart] at hnext
            have hlength : byteLength ('\\' :: d :: inside) =
                byteLength ['\\', d] + byteLength inside := byteLength_append ['\\', d] inside
            rw [hlength]
            exact hnext.front
        by_cases hquote : c = '"'
        · subst hquote
          simp only [hback, if_true, if_false]
          exact ⟨_, rfl, h.enter.clean, rfl⟩
        · simp only [hback, hquote, if_false]
          rw [run_bind_ok (run_advance st 1)]
          have hnext := ih h.enter (by omega)
          have hstart : st.offset + 1 + (octetsOf c).tail.length = st.offset + byteLength [c] := by
            simp only [byteLength]
            omega
          simp only [hstart] at hnext
          exact hnext.front

/-- The backslash takes the first of the two bytes of its neighbour along. -/
example :
    (match (closing "\"\\é\"" 6).run ⟨1, []⟩ with
      | .ok _ st => st.marks
      | .error _ st => st.marks) = [.moved 3, .moved 4, .moved 5] := by decide +kernel

theorem nameOf_agrees {inside : List Char} (h : Stands source rest st) :
    Agrees source
      (match Json.whole stringLiteral inside with
        | .ok name => .ok (name, rest)
        | .error f =>
          .error (stop (.invalidName (f.message (String.ofList ('"' :: inside)))) rest))
      ((nameOf source (String.ofList ('"' :: inside))).run st) := by
  rw [nameOf, parse_string]
  cases Json.whole stringLiteral inside with
  | ok name => exact agrees_pure h
  | error f => exact agrees_stop h _

/-- A name that is not closed ends at the end of the source, or one byte past it. -/
theorem position_unterminated (cs : List Char) (h : Stands source cs st) :
    Stop.position ⟨.unterminatedName, [], trailingBackslashes cs % 2⟩ source.toList =
      st.offset + byteLength cs + trailingBackslashes cs % 2 := by
  rw [h.offset, ← byteLength_toList]
  rfl

theorem quoted_agrees (h : Stands source ('"' :: cs) st) :
    Agrees source (quotedName cs) ((quoted source).run st) := by
  refine Agrees.taking h (quotedName_ends cs) ?_
  have hat := h.advance_ascii isAscii_quote
  have hcloses := closing_closesAt hat.amid (Nat.lt_succ_of_le (by
    rw [List.length_nil, ← hat.offset]
    omega : _ ≤ source.utf8ByteSize))
  rw [run_bind_ok (run_offset st), run_bind_ok (run_advance st 1)]
  unfold quotedName
  cases hscan : scanQuoted cs with
  | error s =>
    have hrest := scanQuoted_ends cs
    rw [hscan] at hcloses hrest
    dsimp only at hrest
    subst hrest
    obtain ⟨st', hr, hclean⟩ := hcloses
    rw [EStateM.run_bind, hr]
    refine ⟨st', ?_, hclean⟩
    rw [position_unterminated cs hat]
    rfl
  | ok p =>
    obtain ⟨taken, rest⟩ := p
    rw [hscan] at hcloses
    obtain ⟨st', hr, hclean, hoffset⟩ := hcloses
    obtain rfl := scanQuoted_eq_append hscan
    have hat' : Stands source rest st' := by
      refine ⟨(List.suffix_append taken rest).trans hat.suffix, ?_, hclean⟩
      rw [hoffset, ← hat.offset, byteLength_append, List.length_nil, Nat.add_zero, Nat.add_assoc]
    have hmid : Stands source (('"' :: taken) ++ rest) st := h
    rw [run_bind_ok hr, run_bind_ok (run_cut? _ _), hmid.between? hat']
    exact nameOf_agrees (hmid.cutting hat')

end Cursor

end AtMostOnce.Selector
