/-
A string literal is read back.

Every character has one way to stand inside a literal, and the reader undoes it
whatever follows (`stringBody_escapeChar`).  So the reader finds the end of a literal
in any text that starts with one, and two literals that start one text are the same
(`quote_append_inj`).
-/
import AtMostOnce.Json.Reader

namespace AtMostOnce.Json

/-- The escape of a control character without a short one. -/
theorem hexQuad?_control {n : Nat} (h : n < 0x20) :
    hexQuad? '0' '0' (Text.hexDigit (n / 16)) (Text.hexDigit (n % 16)) = some n := by
  have all : ∀ n < 0x20,
      hexQuad? '0' '0' (Text.hexDigit (n / 16)) (Text.hexDigit (n % 16)) = some n := by decide
  exact all n h

theorem stringBody_quote (rest : List Char) : stringBody ('"' :: rest) = .ok ([], rest) := by
  rw [stringBody.eq_def]
  simp

theorem stringBody_plain {c : Char} (hquote : c ≠ '"') (hback : c ≠ '\\')
    (hcontrol : ¬ c.toNat < 0x20) (rest : List Char) :
    stringBody (c :: rest) = consChar c (stringBody rest) := by
  rw [stringBody.eq_def]
  simp [hquote, hback, hcontrol]

theorem stringBody_short {e c : Char} (he : e ≠ 'u') (hc : shortEscape? e = some c)
    (rest : List Char) : stringBody ('\\' :: e :: rest) = consChar c (stringBody rest) := by
  rw [stringBody.eq_def]
  simp [he, hc]

theorem stringBody_control {c : Char} (hc : c.toNat < 0x20) (rest : List Char) :
    stringBody ('\\' :: 'u' :: '0' :: '0' :: Text.hexDigit (c.toNat / 16) ::
      Text.hexDigit (c.toNat % 16) :: rest) = consChar c (stringBody rest) := by
  have hlow : isLowSurrogate c.toNat = false := by
    simp only [isLowSurrogate, Bool.and_eq_false_iff, decide_eq_false_iff_not]
    omega
  have hhigh : isHighSurrogate c.toNat = false := by
    simp only [isHighSurrogate, Bool.and_eq_false_iff, decide_eq_false_iff_not]
    omega
  rw [stringBody.eq_def]
  simp [hexQuad?_control hc, hlow, hhigh, Char.ofNat_toNat]

/-- What a character is written as is read back as the character. -/
theorem stringBody_escapeChar (c : Char) (rest : List Char) :
    stringBody (escapeChar c ++ rest) = consChar c (stringBody rest) := by
  unfold escapeChar
  split
  · subst_vars; exact stringBody_short (by decide) rfl rest
  split
  · subst_vars; exact stringBody_short (by decide) rfl rest
  split
  · subst_vars; exact stringBody_short (by decide) rfl rest
  split
  · subst_vars; exact stringBody_short (by decide) rfl rest
  split
  · subst_vars; exact stringBody_short (by decide) rfl rest
  split
  · subst_vars; exact stringBody_short (by decide) rfl rest
  split
  · subst_vars; exact stringBody_short (by decide) rfl rest
  split
  · rename_i hcontrol
    exact stringBody_control hcontrol rest
  · rename_i hquote hback _ _ _ _ _ hcontrol
    exact stringBody_plain hquote hback hcontrol rest

/-- The inside of a literal is read back up to its closing quote. -/
theorem stringBody_escape (cs rest : List Char) :
    stringBody (escape cs ++ '"' :: rest) = .ok (cs, rest) := by
  induction cs with
  | nil => exact stringBody_quote rest
  | cons c cs ih => rw [escape, List.append_assoc, stringBody_escapeChar, ih, consChar]

theorem stringLiteral_escape (s : String) (rest : List Char) :
    stringLiteral (escape s.toList ++ '"' :: rest) = .ok (s, rest) := by
  rw [stringLiteral, stringBody_escape]
  exact congrArg (fun t => Except.ok (t, rest)) String.ofList_toList

/-- Of two literals in front of one text neither is longer. -/
theorem quote_append_inj {s t : String} {rest rest' : List Char}
    (h : quote s ++ rest = quote t ++ rest') : s = t ∧ rest = rest' := by
  have hinside : escape s.toList ++ '"' :: rest = escape t.toList ++ '"' :: rest' := by
    simpa [quote] using h
  have hread := stringLiteral_escape s rest
  rw [hinside, stringLiteral_escape] at hread
  cases hread
  exact ⟨rfl, rfl⟩

end AtMostOnce.Json
