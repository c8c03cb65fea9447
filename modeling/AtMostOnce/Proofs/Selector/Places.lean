/-
Where reading a selector stops.

Every rule leaves an end of the text that it was given, and a fault lies right before such an
end, which is a place between two characters.  There is one exception, and it is told by the
text alone: a quoted name that is still open at the end of the text is cut short behind a
backslash when the text ends in an odd number of them, and the backslash takes one more
character along, so that the fault is reported one byte past the end.
-/
import AtMostOnce.Selector
import Mathlib.Data.List.DropRight

namespace AtMostOnce.Selector

open AtMostOnce.Json

/-! ### Backslashes at the end -/

/-- How many backslashes the text ends in. -/
def trailingBackslashes (cs : List Char) : Nat := (cs.rtakeWhile (· = '\\')).length

theorem trailingBackslashes_append {cs : List Char} (h : ∃ c ∈ cs, c ≠ '\\') (before : List Char) :
    trailingBackslashes (before ++ cs) = trailingBackslashes cs := by
  obtain ⟨c, hc, hne⟩ := h
  have hstop : (cs.reverse.takeWhile (· = '\\')).length ≠ cs.reverse.length := by
    intro hlength
    have hall := List.takeWhile_eq_self_iff.mp
      ((List.takeWhile_prefix (l := cs.reverse) (· = '\\')).eq_of_length hlength)
    exact hne (of_decide_eq_true (hall c (List.mem_reverse.mpr hc)))
  rw [trailingBackslashes, trailingBackslashes, List.rtakeWhile, List.rtakeWhile,
    List.reverse_append, List.takeWhile_append, if_neg hstop]

theorem trailingBackslashes_replicate (n : Nat) :
    trailingBackslashes (List.replicate n '\\') = n := by
  have hself : (List.replicate n '\\').rtakeWhile (· = '\\') = List.replicate n '\\' :=
    List.rtakeWhile_eq_self_iff.mpr fun c hc => decide_eq_true (List.eq_of_mem_replicate hc)
  rw [trailingBackslashes, hself, List.length_replicate]

/-- A text is all backslashes, or a character in front makes no difference to those at its end. -/
theorem eq_replicate_or_exists (cs : List Char) :
    cs = List.replicate cs.length '\\' ∨ ∃ c ∈ cs, c ≠ '\\' := by
  by_cases h : ∀ c ∈ cs, c = '\\'
  · exact .inl (List.eq_replicate_of_mem h)
  · push Not at h
    exact .inr h

theorem trailingBackslashes_plain {c : Char} (hc : c ≠ '\\') (cs : List Char) :
    trailingBackslashes (c :: cs) = trailingBackslashes cs := by
  rcases eq_replicate_or_exists cs with h | h
  · rw [h, trailingBackslashes_replicate]
    have hstop : (c :: List.replicate cs.length '\\').rtakeWhile (· = '\\') =
        List.replicate cs.length '\\' := by
      simp [List.rtakeWhile, hc]
    rw [trailingBackslashes, hstop, List.length_replicate]
  · exact trailingBackslashes_append h [c]

/-- A backslash that takes the next character along leaves the number odd or even. -/
theorem trailingBackslashes_escaped (d : Char) (cs : List Char) :
    trailingBackslashes ('\\' :: d :: cs) % 2 = trailingBackslashes cs % 2 := by
  rcases eq_replicate_or_exists cs with h | h
  · by_cases hd : d = '\\'
    · subst hd
      rw [h, ← List.replicate_succ, ← List.replicate_succ, trailingBackslashes_replicate,
        trailingBackslashes_replicate]
      omega
    · rw [← trailingBackslashes_plain hd cs]
      congr 1
      exact trailingBackslashes_append ⟨d, List.mem_cons_self, hd⟩ ['\\']
  · rw [show '\\' :: d :: cs = ['\\', d] ++ cs from rfl, trailingBackslashes_append h]

/-! ### Stops within a text -/

/-- Reading stopped within the text, or where a quoted name is still open at its end. -/
inductive Stop.Within (cs : List Char) : Stop → Prop
  | before {cause : Cause} {rest : List Char} (hcause : cause ≠ .unterminatedName)
    (h : rest <:+ cs) : Within cs (stop cause rest)
  | open_ {inside : List Char} (h : '"' :: inside <:+ cs) :
    Within cs ⟨.unterminatedName, [], trailingBackslashes inside % 2⟩

theorem Stop.Within.mono {cs cs' : List Char} {s : Stop} (h : s.Within cs) (hle : cs <:+ cs') :
    s.Within cs' := by
  cases h with
  | before hcause h => exact .before hcause (h.trans hle)
  | open_ h => exact .open_ (h.trans hle)

/-- What is left is an end of the text and shorter than it. -/
structure Behind (cs rest : List Char) : Prop where
  suffix : rest <:+ cs
  shorter : rest.length < cs.length

theorem behind_cons {c : Char} {cs rest : List Char} (h : rest <:+ cs) : Behind (c :: cs) rest :=
  ⟨h.trans (List.suffix_cons c cs), Nat.lt_succ_of_le h.length_le⟩

theorem Behind.of_suffix {cs cs' rest : List Char} (h : Behind cs rest) (hle : cs <:+ cs') :
    Behind cs' rest :=
  ⟨h.suffix.trans hle, Nat.lt_of_lt_of_le h.shorter hle.length_le⟩

/-- What a rule makes of a text: it leaves less of it, or it stops within it. -/
def Ends {α : Type} (cs : List Char) : Except Stop (α × List Char) → Prop
  | .ok (_, rest) => Behind cs rest
  | .error s => s.Within cs

/-- Whatever the text, the rule leaves less of it, or it stops within it. -/
def Placed {α : Type} (r : Rule α) : Prop := ∀ cs, Ends cs (r cs)

section

variable {α : Type} {r : Rule α} {cs rest : List Char} {a : α} {s : Stop}

theorem Placed.leaves (h : Placed r) (hr : r cs = .ok (a, rest)) : Behind cs rest := by
  have := h cs
  rwa [hr] at this

theorem Placed.stops (h : Placed r) (hr : r cs = .error s) : s.Within cs := by
  have := h cs
  rwa [hr] at this

theorem Ends.mono {cs' : List Char} {x : Except Stop (α × List Char)} (h : Ends cs x)
    (hle : cs <:+ cs') : Ends cs' x := by
  cases x with
  | ok p => exact Behind.of_suffix h hle
  | error s => exact Stop.Within.mono h hle

end

theorem skipBlanks_suffix (cs : List Char) : skipBlanks cs <:+ cs := List.dropWhile_suffix _

/-- After blanks a rule may look at the next character. -/
theorem suffix_of_skipBlanks {cs rest : List Char} (h : skipBlanks cs = rest) : rest <:+ cs :=
  h ▸ skipBlanks_suffix cs

/-! ### Names -/

/-- Behind an opening quote the text is split behind the closing one, or there is none. -/
theorem scanQuoted_ends (cs : List Char) :
    match scanQuoted cs with
    | .ok (_, rest) => Behind cs rest
    | .error s => s = ⟨.unterminatedName, [], trailingBackslashes cs % 2⟩ := by
  fun_induction scanQuoted cs with
  | case1 => rfl
  | case2 cs => exact behind_cons List.suffix_rfl
  | case3 => rfl
  | case4 d cs inside rest hr _ ih =>
    rw [hr] at ih
    exact (behind_cons ih.suffix).of_suffix (List.suffix_cons _ _)
  | case5 d cs e hr _ ih =>
    rw [hr] at ih
    rw [trailingBackslashes_escaped]
    exact ih
  | case6 c cs hquote hback inside rest hr ih =>
    rw [hr] at ih
    exact behind_cons ih.suffix
  | case7 c cs hquote hback e hr ih =>
    rw [hr] at ih
    rw [trailingBackslashes_plain hback]
    exact ih

theorem quotedName_ends (cs : List Char) : Ends ('"' :: cs) (quotedName cs) := by
  have hscan := scanQuoted_ends cs
  unfold quotedName
  split
  · rename_i hr
    rw [hr] at hscan
    dsimp only at hscan
    subst hscan
    exact .open_ List.suffix_rfl
  · rename_i hr
    rw [hr] at hscan
    split
    · exact behind_cons hscan.suffix
    · exact .before nofun (hscan.suffix.trans (List.suffix_cons _ _))

theorem continuesName_of_startsName {c : Char} (hc : startsName c = true) :
    continuesName c = true := by
  unfold startsName at hc
  unfold continuesName Char.isAlphanum
  rw [Bool.or_eq_true] at hc ⊢
  exact hc.imp_left fun halpha => by rw [halpha]; rfl

theorem identifier_behind {c : Char} (hc : startsName c = true) (cs : List Char) :
    Behind (c :: cs) (identifier (c :: cs)).2 := by
  rw [identifier, List.dropWhile_cons_of_pos (continuesName_of_startsName hc)]
  exact behind_cons (List.dropWhile_suffix _)

theorem placed_expect (c : Char) : Placed (expect c) := by
  intro cs
  unfold expect
  split
  · rename_i d rest hskip
    have hsuffix := suffix_of_skipBlanks hskip
    split
    · exact (behind_cons List.suffix_rfl).of_suffix hsuffix
    · exact .before nofun hsuffix
  · exact .before nofun (List.nil_suffix)

theorem integerPart_suffix (cs : List Char) : (integerPart cs).2 <:+ cs := by
  unfold integerPart
  split
  · exact (List.dropWhile_suffix _).trans (List.suffix_cons _ _)
  · exact List.dropWhile_suffix _

theorem placed_index : Placed index := by
  intro cs
  have hrest : (integerPart (skipBlanks cs)).2 <:+ cs :=
    (integerPart_suffix _).trans (skipBlanks_suffix cs)
  unfold index
  dsimp only
  split
  · exact .before nofun hrest
  split
  · rename_i hend
    exact ((placed_expect ']').leaves hend).of_suffix hrest
  · rename_i hend
    exact ((placed_expect ']').stops hend).mono hrest

/-! ### Brackets -/

section

variable {inner : Rule Node}

theorem placed_moreItems (h : Placed inner) (fuel : Nat) : Placed (moreItems inner fuel) := by
  induction fuel with
  | zero => exact fun cs => .before nofun List.suffix_rfl
  | succ fuel ih =>
    intro cs
    unfold moreItems
    split
    · exact .before nofun List.nil_suffix
    · rename_i c rest hskip
      have hsuffix := suffix_of_skipBlanks hskip
      have hbehind : rest <:+ cs := (List.suffix_cons c rest).trans hsuffix
      split
      · split
        · rename_i hitem
          exact (h.stops hitem).mono hbehind
        · rename_i hitem
          have hleft := (h.leaves hitem).of_suffix hbehind
          split
          · rename_i hmore
            exact (ih.stops hmore).mono hleft.suffix
          · rename_i hmore
            exact (ih.leaves hmore).of_suffix hleft.suffix
      split
      · exact (behind_cons List.suffix_rfl).of_suffix hsuffix
      · exact .before nofun hsuffix

theorem placed_list (h : Placed inner) : Placed (list inner) := by
  intro cs
  unfold list
  split
  · rename_i hitem
    exact h.stops hitem
  · rename_i hitem
    have hleft := h.leaves hitem
    split
    · rename_i hmore
      exact ((placed_moreItems h _).stops hmore).mono hleft.suffix
    · rename_i hmore
      exact ((placed_moreItems h _).leaves hmore).of_suffix hleft.suffix

theorem placed_entryName : Placed entryName := by
  intro cs
  unfold entryName
  split
  · exact .before nofun List.nil_suffix
  · rename_i c rest hskip
    have hsuffix := suffix_of_skipBlanks hskip
    split
    · rename_i hc
      subst hc
      exact (quotedName_ends rest).mono hsuffix
    split
    · rename_i hc
      exact (identifier_behind hc rest).of_suffix hsuffix
    · exact .before nofun hsuffix

theorem placed_entries (h : Placed inner) (fuel : Nat) : Placed (entries inner fuel) := by
  induction fuel with
  | zero => exact fun cs => .before nofun List.suffix_rfl
  | succ fuel ih =>
    intro cs
    unfold entries
    split
    · rename_i hname
      exact placed_entryName.stops hname
    rename_i hname
    have hleft := placed_entryName.leaves hname
    split
    · rename_i hcolon
      exact ((placed_expect ':').stops hcolon).mono hleft.suffix
    rename_i hcolon
    have hleft := ((placed_expect ':').leaves hcolon).of_suffix hleft.suffix
    split
    · rename_i hitem
      exact (h.stops hitem).mono hleft.suffix
    rename_i hitem
    have hleft := (h.leaves hitem).of_suffix hleft.suffix
    split
    · exact .before nofun List.nil_suffix
    · rename_i c rest hskip
      have hsuffix := (suffix_of_skipBlanks hskip).trans hleft.suffix
      split
      · split
        · rename_i hmore
          exact (ih.stops hmore).mono ((List.suffix_cons c rest).trans hsuffix)
        · rename_i hmore
          exact (ih.leaves hmore).of_suffix ((List.suffix_cons c rest).trans hsuffix)
      split
      · exact (behind_cons List.suffix_rfl).of_suffix hsuffix
      · exact .before nofun hsuffix

theorem placed_hash (h : Placed inner) : Placed (hash inner) := by
  intro cs
  unfold hash
  split
  · rename_i hentries
    exact (placed_entries h _).stops hentries
  · rename_i hentries
    exact (placed_entries h _).leaves hentries

/-! ### Expressions -/

theorem placed_function (h : Placed inner) (name : String) : Placed (function inner name) := by
  intro cs
  unfold function
  split
  · exact .before nofun List.suffix_rfl
  split
  · rename_i hopen
    exact (placed_expect '(').stops hopen
  rename_i hopen
  have hleft := (placed_expect '(').leaves hopen
  split
  · rename_i hargument
    exact (h.stops hargument).mono hleft.suffix
  rename_i hargument
  have hleft := (h.leaves hargument).of_suffix hleft.suffix
  split
  · rename_i hclose
    exact ((placed_expect ')').stops hclose).mono hleft.suffix
  · rename_i hclose
    exact ((placed_expect ')').leaves hclose).of_suffix hleft.suffix

theorem nameOrFunction_ends (h : Placed inner) {c : Char} (hc : startsName c = true)
    (cs : List Char) : Ends (c :: cs) (nameOrFunction inner (c :: cs)) := by
  have hname := identifier_behind hc cs
  unfold nameOrFunction
  dsimp only
  split
  · exact ⟨List.nil_suffix, Nat.succ_pos _⟩
  · rename_i d rest hskip
    have hsuffix := suffix_of_skipBlanks hskip
    split
    · exact (placed_function h _ _).mono (hsuffix.trans hname.suffix)
    · exact ⟨hsuffix.trans hname.suffix, Nat.lt_of_le_of_lt hsuffix.length_le hname.shorter⟩

theorem placed_primary (h : Placed inner) : Placed (primary inner) := by
  intro cs
  unfold primary
  split
  · exact .before nofun List.nil_suffix
  rename_i c rest hskip
  have hsuffix := suffix_of_skipBlanks hskip
  have hbehind : rest <:+ cs := (List.suffix_cons c rest).trans hsuffix
  split
  · split
    · exact (placed_index rest).mono hbehind
    · exact (placed_list h rest).mono hbehind
  split
  · exact (placed_hash h rest).mono hbehind
  split
  · rename_i hc
    subst hc
    have hname := (quotedName_ends rest).mono hsuffix
    split
    · rename_i hr
      rwa [hr] at hname
    · rename_i hr
      rwa [hr] at hname
  split
  · exact (behind_cons List.suffix_rfl).of_suffix hsuffix
  split
  · rename_i hc
    exact (nameOrFunction_ends h hc rest).mono hsuffix
  · exact .before nofun hsuffix

theorem placed_afterDot (h : Placed inner) : Placed (afterDot inner) := by
  intro cs
  unfold afterDot
  split
  · exact .before nofun List.nil_suffix
  rename_i c rest hskip
  have hsuffix := suffix_of_skipBlanks hskip
  have hbehind : rest <:+ cs := (List.suffix_cons c rest).trans hsuffix
  split
  · rename_i hc
    subst hc
    have hname := (quotedName_ends rest).mono hsuffix
    split
    · rename_i hr
      rwa [hr] at hname
    · rename_i hr
      rwa [hr] at hname
  split
  · exact (placed_list h rest).mono hbehind
  split
  · exact (placed_hash h rest).mono hbehind
  split
  · rename_i hc
    exact (identifier_behind hc rest).of_suffix hsuffix
  · exact .before nofun hsuffix

/-- The steps behind a node may take nothing. -/
theorem steps_ends (h : Placed inner) (fuel : Nat) (n : Node) (cs : List Char) :
    match steps inner fuel n cs with
    | .ok (_, rest) => rest <:+ cs
    | .error s => s.Within cs := by
  induction fuel generalizing n cs with
  | zero => exact List.suffix_rfl
  | succ fuel ih =>
    -- what one step leaves is taken on by the next ones
    have further {m : Node} {rest : List Char} (hrest : rest <:+ cs) :
        match steps inner fuel m rest with
        | .ok (_, rest) => rest <:+ cs
        | .error s => s.Within cs := by
      have := ih m rest
      split
      · rename_i hr
        rw [hr] at this
        exact List.IsSuffix.trans this hrest
      · rename_i hr
        rw [hr] at this
        exact Stop.Within.mono this hrest
    unfold steps
    cases hskip : skipBlanks cs with
    | nil => exact List.nil_suffix
    | cons c rest =>
      have hsuffix := suffix_of_skipBlanks hskip
      have hbehind : rest <:+ cs := (List.suffix_cons c rest).trans hsuffix
      dsimp only
      by_cases hdot : c = '.'
      · rw [if_pos hdot]
        cases hstep : afterDot inner rest with
        | ok p => exact further (((placed_afterDot h).leaves hstep).suffix.trans hbehind)
        | error s => exact ((placed_afterDot h).stops hstep).mono hbehind
      rw [if_neg hdot]
      by_cases hbracket : c = '['
      · rw [if_pos hbracket]
        cases hstep : index rest with
        | ok p => exact further ((placed_index.leaves hstep).suffix.trans hbehind)
        | error s => exact (placed_index.stops hstep).mono hbehind
      · rw [if_neg hbracket]
        exact hsuffix

end

theorem placed_expression (depth : Nat) : Placed (expression depth) := by
  induction depth with
  | zero => exact fun cs => .before nofun List.suffix_rfl
  | succ depth ih =>
    intro cs
    unfold expression expressionWith
    split
    · rename_i n rest hprimary
      have hleft := (placed_primary ih).leaves hprimary
      have hsteps := steps_ends ih (rest.length + 1) n rest
      cases hr : steps (expression depth) (rest.length + 1) n rest with
      | ok p =>
        rw [hr] at hsteps
        exact ⟨hsteps.trans hleft.suffix, Nat.lt_of_le_of_lt hsteps.length_le hleft.shorter⟩
      | error s =>
        rw [hr] at hsteps
        exact hsteps.mono hleft.suffix
    · rename_i hprimary
      exact (placed_primary ih).stops hprimary

theorem parseNode_stops {cs : List Char} {s : Stop} (h : parseNode cs = .error s) :
    s.Within cs := by
  unfold parseNode at h
  split at h
  · cases h
  rename_i c rest hskip
  have hsuffix := suffix_of_skipBlanks hskip
  split at h
  · rename_i hr
    cases h
    exact ((placed_expression _).stops hr).mono hsuffix
  rename_i hr
  have hleft := ((placed_expression _).leaves hr).of_suffix hsuffix
  split at h
  · cases h
  · cases h
    exact .before nofun ((skipBlanks_suffix _).trans hleft.suffix)

/-! ### Positions -/

theorem byteLength_append (cs ds : List Char) :
    byteLength (cs ++ ds) = byteLength cs + byteLength ds := by
  induction cs with
  | nil => exact (Nat.zero_add _).symm
  | cons c cs ih =>
    show c.utf8Size + byteLength (cs ++ ds) = c.utf8Size + byteLength cs + byteLength ds
    rw [ih, Nat.add_assoc]

theorem utf8ByteSize_ofList (cs : List Char) :
    (String.ofList cs).utf8ByteSize = byteLength cs := by
  induction cs with
  | nil => rfl
  | cons c cs ih =>
    rw [String.ofList_cons, String.utf8ByteSize_append, ih, String.utf8ByteSize_singleton]
    rfl

theorem Stop.position_before {cause : Cause} {rest : List Char} {source : String}
    (h : rest <:+ source.toList) :
    String.Pos.Raw.IsValid source ⟨(stop cause rest).position source.toList⟩ := by
  obtain ⟨taken, htaken⟩ := h
  have hposition : (stop cause rest).position source.toList = byteLength taken := by
    rw [position, ← htaken, byteLength_append]
    show byteLength taken + byteLength rest - byteLength rest + 0 = _
    omega
  rw [hposition, String.Pos.Raw.isValid_iff_exists_append]
  refine ⟨String.ofList taken, String.ofList rest, ?_, ?_⟩
  · rw [← String.ofList_append, htaken, String.ofList_toList]
  · rw [← utf8ByteSize_ofList]
    rfl

/-- A name that is still open at the end stops there, or one byte past it. -/
theorem Stop.position_open {inside : List Char} {source : String}
    (h : '"' :: inside <:+ source.toList) :
    Stop.position ⟨.unterminatedName, [], trailingBackslashes inside % 2⟩ source.toList =
      source.utf8ByteSize + trailingBackslashes source.toList % 2 := by
  obtain ⟨taken, htaken⟩ := h
  have htrailing : trailingBackslashes source.toList = trailingBackslashes inside := by
    rw [← htaken, trailingBackslashes_append ⟨'"', List.mem_cons_self, by decide⟩,
      trailingBackslashes_plain (by decide)]
  rw [htrailing, ← String.ofList_toList (s := source), utf8ByteSize_ofList,
    String.toList_ofList]
  rfl

/-- Texts that differ in a character are told apart, whatever follows the one. -/
theorem append_ne {a t : String} (b : String) (i : Nat) (hi : i < a.toList.length)
    (h : a.toList[i]? ≠ t.toList[i]?) : a ++ b ≠ t := by
  rintro rfl
  rw [String.toList_append, List.getElem?_append_left hi] at h
  exact h rfl

/-- The wording tells a name that is still open from every other cause. -/
theorem Cause.eq_unterminatedName {cause : Cause}
    (h : cause.text = unterminatedName.text) : cause = .unterminatedName := by
  cases cause with
  | unknownFunction name =>
    have h : "unknown function '" ++ name ++ "'" = unterminatedName.text := h
    rw [String.append_assoc] at h
    exact absurd h (append_ne _ 2 (by decide) (by decide))
  | expected c =>
    have h : "expected '" ++ toString c ++ "'" = unterminatedName.text := h
    rw [String.append_assoc] at h
    exact absurd h (append_ne _ 0 (by decide) (by decide))
  | invalidName reason => exact absurd h (append_ne _ 0 (by decide) (by decide))
  | unterminatedName => rfl
  | _ => exact absurd h (by decide)

/-- **A refusal points into its source, but for a name that is cut short by a backslash.**  The
position of a refusal is at most the length of the source in bytes and lies between two characters,
unless the refusal is of a quoted name that is still open at the end of the source, and the source
ends in an odd number of backslashes; then it is one byte past the end. -/
theorem position_valid_iff {source : String} {e : SyntaxError} (h : parse source = .error e) :
    e.source = source ∧
      ((e.position ≤ source.utf8ByteSize ∧ String.Pos.Raw.IsValid source ⟨e.position⟩) ↔
        ¬ (e.detail = Cause.unterminatedName.text ∧ trailingBackslashes source.toList % 2 = 1)) ∧
      (e.position ≤ source.utf8ByteSize ∨ e.position = source.utf8ByteSize + 1) := by
  unfold parse at h
  split at h
  · cases h
  rename_i s hs
  cases h
  refine ⟨rfl, ?_⟩
  dsimp only
  cases parseNode_stops hs with
  | @before cause rest hcause hrest =>
    have hvalid : String.Pos.Raw.IsValid source ⟨(stop cause rest).position source.toList⟩ :=
      Stop.position_before hrest
    have hle := hvalid.le_rawEndPos
    exact ⟨⟨fun _ hopen => hcause (Cause.eq_unterminatedName hopen.1), fun _ => ⟨hle, hvalid⟩⟩,
      .inl hle⟩
  | @open_ inside hopen =>
    rw [Stop.position_open hopen]
    refine ⟨⟨fun hin hodd => ?_, fun hclosed => ?_⟩, by omega⟩
    · omega
    · have heven : trailingBackslashes source.toList % 2 = 0 :=
        Nat.mod_two_ne_one.mp fun hodd => hclosed ⟨rfl, hodd⟩
      rw [heven]
      exact ⟨le_refl _, String.Pos.Raw.isValid_rawEndPos⟩

/-- An open name that ends in two backslashes, behind a character of two bytes, is refused right at
the end; one that ends in a single one is not. -/
theorem position_valid_open :
    (∃ e, parse "@.\"é\\\\" = .error e ∧
      e.position ≤ 7 ∧ String.Pos.Raw.IsValid "@.\"é\\\\" ⟨e.position⟩) ∧
    ∃ e, parse "\"é\\" = .error e ∧
      ¬ (e.position ≤ 4 ∧ String.Pos.Raw.IsValid "\"é\\" ⟨e.position⟩) := by
  have hpair : parse "@.\"é\\\\" =
      .error ⟨"@.\"é\\\\", 7, Cause.unterminatedName.text⟩ := rfl
  have hsingle : parse "\"é\\" = .error ⟨"\"é\\", 5, Cause.unterminatedName.text⟩ := rfl
  exact ⟨⟨_, hpair, (position_valid_iff hpair).2.1.mpr fun hopen => absurd hopen.2 (by decide)⟩,
    _, hsingle, fun hin => (position_valid_iff hsingle).2.1.mp hin ⟨rfl, by decide⟩⟩

/-- A name of one letter and a backslash is refused at byte four, while its source has three. -/
theorem position_past_end :
    ∃ e, parse "\"a\\" = .error e ∧ e.position = 4 ∧ "\"a\\".utf8ByteSize = 3 :=
  ⟨⟨"\"a\\", 4, Cause.unterminatedName.text⟩, rfl, rfl, by decide⟩

end AtMostOnce.Selector
