/-
The bytes of a text.

A character of ASCII is one byte, the one of its code; any other character is several bytes, and
none of them is the code of a character of ASCII.  So a look for a character of ASCII may go from
byte to byte: what it finds is a character, wherever it began (`lead_eq_iff`), and what it passes
byte by byte it passes character by character (`dropWhile_octets`).
-/
import AtMostOnce.Proofs.Decimal
import AtMostOnce.Proofs.Selector.Places

namespace AtMostOnce.Text

open AtMostOnce.Selector (byteLength_append utf8ByteSize_ofList)
open AtMostOnce.Json (byteLength)

/-- The bytes of a text in UTF-8, each as the character of its code. -/
def octets (source : String) : List Char := source.toUTF8.data.toList.map Char.ofUInt8

/-- The text between two offsets, if they are in order and each is a place between two
characters. -/
def between? (source : String) (start stop : Nat) : Option String :=
  if h : start ≤ stop ∧ String.Pos.Raw.IsValid source ⟨start⟩ ∧
      String.Pos.Raw.IsValid source ⟨stop⟩ then
    some (String.extract (source.pos ⟨start⟩ h.2.1) (source.pos ⟨stop⟩ h.2.2))
  else none

/-- A text between two others is cut out as it is. -/
theorem between?_append (before text after : String) :
    between? (before ++ text ++ after) before.utf8ByteSize (before ++ text).utf8ByteSize =
      some text := by
  have hstart : String.Pos.Raw.IsValid (before ++ text ++ after) ⟨before.utf8ByteSize⟩ :=
    String.Pos.Raw.isValid_iff_exists_append.mpr ⟨before, text ++ after, String.append_assoc, rfl⟩
  have hstop : String.Pos.Raw.IsValid (before ++ text ++ after) ⟨(before ++ text).utf8ByteSize⟩ :=
    String.Pos.Raw.isValid_iff_exists_append.mpr ⟨before ++ text, after, rfl, rfl⟩
  have hle : before.utf8ByteSize ≤ (before ++ text).utf8ByteSize := by
    rw [String.utf8ByteSize_append]
    exact Nat.le_add_right _ _
  rw [between?, dif_pos ⟨hle, hstart, hstop⟩, Option.some_inj, ← String.toByteArray_inj,
    String.toByteArray_extract, String.toByteArray_append, String.toByteArray_append,
    ByteArray.append_assoc]
  show (before.toByteArray ++ (text.toByteArray ++ after.toByteArray)).extract
    (before.toByteArray.size + 0) (before ++ text).utf8ByteSize = _
  rw [String.utf8ByteSize_append]
  exact ByteArray.extract_append_size_add.trans (ByteArray.extract_append_eq_left rfl)

/-! ### The bytes of a character -/

/-- The bytes of a character in UTF-8, each as the character of its code. -/
def octetsOf (c : Char) : List Char := (String.utf8EncodeChar c).map Char.ofUInt8

theorem octets_ofList (cs : List Char) : octets (String.ofList cs) = cs.flatMap octetsOf := by
  have hbytes : (String.ofList cs).toUTF8.data.toList = cs.flatMap String.utf8EncodeChar := by
    rw [String.toUTF8_eq_toByteArray, String.toByteArray_ofList, List.utf8Encode,
      List.data_toByteArray, List.toList_toArray]
  rw [octets, hbytes, List.map_flatMap]
  rfl

theorem octets_eq (source : String) : octets source = source.toList.flatMap octetsOf := by
  rw [← octets_ofList, String.ofList_toList]

theorem length_octetsOf (c : Char) : (octetsOf c).length = c.utf8Size := by
  rw [octetsOf, List.length_map, String.length_utf8EncodeChar]

theorem length_flatMap_octetsOf (cs : List Char) :
    (cs.flatMap octetsOf).length = byteLength cs := by
  induction cs with
  | nil => rfl
  | cons c cs ih =>
    rw [List.flatMap_cons, List.length_append, length_octetsOf, ih]
    rfl

theorem byteLength_toList (source : String) : byteLength source.toList = source.utf8ByteSize := by
  rw [← utf8ByteSize_ofList, String.ofList_toList]

theorem length_octets (source : String) : (octets source).length = source.utf8ByteSize := by
  rw [octets_eq, length_flatMap_octetsOf, byteLength_toList]

theorem length_le_byteLength (cs : List Char) : cs.length ≤ byteLength cs := by
  induction cs with
  | nil => exact Nat.le_refl 0
  | cons c cs ih =>
    have := c.utf8Size_pos
    rw [List.length_cons, byteLength]
    omega

theorem octetsOf_ne_nil (c : Char) : octetsOf c ≠ [] := by
  intro h
  have := length_octetsOf c
  rw [h] at this
  exact absurd this (Nat.ne_of_lt c.utf8Size_pos)

/-- The first byte of a character. -/
def lead (c : Char) : Char := (octetsOf c).head (octetsOf_ne_nil c)

theorem octetsOf_eq_cons (c : Char) : octetsOf c = lead c :: (octetsOf c).tail :=
  (List.cons_head_tail _).symm

theorem length_tail_octetsOf (c : Char) : (octetsOf c).tail.length + 1 = c.utf8Size := by
  rw [← length_octetsOf, octetsOf_eq_cons c, List.tail_cons, List.length_cons]

theorem flatMap_octetsOf_cons (c : Char) (cs : List Char) :
    (c :: cs).flatMap octetsOf = lead c :: ((octetsOf c).tail ++ cs.flatMap octetsOf) := by
  rw [List.flatMap_cons, ← List.cons_append, ← octetsOf_eq_cons]

/-! ### ASCII -/

/-- The characters of one byte. -/
def IsAscii (c : Char) : Prop := c.toNat < 128

instance (c : Char) : Decidable (IsAscii c) := inferInstanceAs (Decidable (_ < _))

theorem octetsOf_ascii {c : Char} (h : IsAscii c) : octetsOf c = [c] := by
  have hsize : c.utf8Size = 1 := by
    rw [Char.utf8Size_eq_one_iff, UInt32.le_iff_toNat_le]
    exact Nat.le_of_lt_succ h
  rw [octetsOf, String.utf8EncodeChar_eq_singleton hsize, List.map_singleton]
  congr 1
  apply Char.ext
  apply UInt32.toNat_inj.mp
  show c.val.toUInt8.toUInt32.toNat = c.val.toNat
  have hlt : c.val.toNat < 128 := h
  rw [UInt8.toNat_toUInt32, UInt32.toNat_toUInt8]
  omega

theorem utf8Size_ascii {c : Char} (h : IsAscii c) : c.utf8Size = 1 := by
  rw [← length_octetsOf, octetsOf_ascii h]
  rfl

/-- No byte of another character is a character of ASCII. -/
theorem not_isAscii_of_mem {c o : Char} (h : ¬ IsAscii c) (ho : o ∈ octetsOf c) :
    ¬ IsAscii o := by
  obtain ⟨b, hb, rfl⟩ := List.mem_map.mp ho
  have hc : ¬ c.val.toNat ≤ 127 := fun hle => h (Nat.lt_succ_of_le hle)
  have hhigh : 128 ≤ b.toNat := by
    unfold String.utf8EncodeChar at hb
    dsimp only at hb
    rw [if_neg hc] at hb
    -- two, three or four bytes
    split at hb
    · simp only [List.mem_cons, List.not_mem_nil, or_false] at hb
      rcases hb with rfl | rfl <;> rw [UInt8.toNat_ofNat'] <;> omega
    split at hb
    · simp only [List.mem_cons, List.not_mem_nil, or_false] at hb
      rcases hb with rfl | rfl | rfl <;> rw [UInt8.toNat_ofNat'] <;> omega
    · simp only [List.mem_cons, List.not_mem_nil, or_false] at hb
      rcases hb with rfl | rfl | rfl | rfl <;> rw [UInt8.toNat_ofNat'] <;> omega
  exact fun hlt : b.toNat < 128 => absurd hhigh (Nat.not_le_of_lt hlt)

/-- Behind its first byte no character has a byte that is a character of ASCII. -/
theorem not_isAscii_of_mem_tail {c o : Char} (ho : o ∈ (octetsOf c).tail) : ¬ IsAscii o := by
  by_cases hc : IsAscii c
  · rw [octetsOf_ascii hc] at ho
    cases ho
  · exact not_isAscii_of_mem hc (List.mem_of_mem_tail ho)

theorem lead_ascii {c : Char} (h : IsAscii c) : lead c = c := by
  simp only [lead, octetsOf_ascii h, List.head_cons]

theorem not_isAscii_lead {c : Char} (h : ¬ IsAscii c) : ¬ IsAscii (lead c) :=
  not_isAscii_of_mem h (List.head_mem _)

/-- A byte is a character of ASCII exactly if the character that it opens is that one. -/
theorem lead_eq_iff {c a : Char} (ha : IsAscii a) : lead c = a ↔ c = a := by
  by_cases hc : IsAscii c
  · rw [lead_ascii hc]
  · exact iff_of_false (fun h => not_isAscii_lead hc (h ▸ ha)) (fun h => hc (h ▸ ha))

/-! ### Classes of characters -/

/-- All characters of the class are of ASCII. -/
def OnAscii (p : Char → Bool) : Prop := ∀ c, p c = true → IsAscii c

variable {p q : Char → Bool}

theorem OnAscii.lead (h : OnAscii p) (c : Char) : p (lead c) = p c := by
  by_cases hc : IsAscii c
  · rw [lead_ascii hc]
  · rw [Bool.eq_false_iff.mpr fun hp => hc (h c hp),
      Bool.eq_false_iff.mpr fun hp => not_isAscii_lead hc (h _ hp)]

/-- What is passed byte by byte is passed character by character. -/
theorem dropWhile_octets (h : OnAscii p) (cs : List Char) :
    (cs.flatMap octetsOf).dropWhile p = (cs.dropWhile p).flatMap octetsOf := by
  induction cs with
  | nil => rfl
  | cons c cs ih =>
    by_cases hp : p c = true
    · rw [List.flatMap_cons, octetsOf_ascii (h c hp), List.singleton_append,
        List.dropWhile_cons_of_pos hp, List.dropWhile_cons_of_pos hp, ih]
    · have hlead : ¬ p (lead c) = true := by rwa [h.lead]
      rw [List.dropWhile_cons_of_neg hp, flatMap_octetsOf_cons, List.dropWhile_cons_of_neg hlead]

theorem head?_octets (h : OnAscii p) (cs : List Char) :
    (cs.flatMap octetsOf).head?.any p = cs.head?.any p := by
  cases cs with
  | nil => rfl
  | cons c cs =>
    rw [flatMap_octetsOf_cons, List.head?_cons, List.head?_cons, Option.any_some, Option.any_some,
      h.lead]

theorem onAscii_eq {a : Char} (ha : IsAscii a) : OnAscii fun c => c = a := by
  intro c hc
  rw [of_decide_eq_true hc]
  exact ha

theorem OnAscii.or (hp : OnAscii p) (hq : OnAscii q) : OnAscii fun c => p c || q c :=
  fun c hc => (Bool.or_eq_true_iff.mp hc).elim (hp c) (hq c)

theorem onAscii_isDigit : OnAscii Char.isDigit :=
  fun _ hc => forall_digit (p := IsAscii) (by decide) hc

theorem onAscii_isAlpha : OnAscii Char.isAlpha := by
  intro c hc
  show c.val.toNat < 128
  rcases Bool.or_eq_true_iff.mp (show (c.isUpper || c.isLower) = true from hc) with h | h
  · have hle : c.val ≤ 'Z'.val := (of_decide_eq_true h).2
    exact Nat.lt_of_le_of_lt (UInt32.le_iff_toNat_le.mp hle) (by decide)
  · have hle : c.val ≤ 'z'.val := of_decide_eq_true (Bool.and_eq_true_iff.mp h).2
    exact Nat.lt_of_le_of_lt (UInt32.le_iff_toNat_le.mp hle) (by decide)

end AtMostOnce.Text
