/-
The text of an update is read back.

What is sent of an update is its text and what its placeholders stand for, so this is all
that a table can act on.  `Update.read?` is the table's side: a text is cut into words and
signs, and assignments are made of these.  Words that contain no sign come out as they went
in, whatever their number, and so a text says the same assignments to the table as to the
one who wrote it (`read?_text`).
-/
import AtMostOnce.Table.Condition

namespace AtMostOnce.Table

/-! ### Words and signs -/

/-- What the text of an update is made of. -/
inductive Token where
  | word (text : String)
  | equals
  | comma
  deriving DecidableEq, Repr

namespace Token

/-- The signs that a character between words stands for; a blank stands for none. -/
def signs? : Char → Option (List Token)
  | ' ' => some []
  | '=' => some [equals]
  | ',' => some [comma]
  | _ => none

/-- A word, if there are any characters for one. -/
def ofWord : List Char → List Token
  | [] => []
  | cs => [word (String.ofList cs)]

/-- The words and signs of a text that goes on from the beginning of a word. -/
def scan (begun : List Char) : List Char → List Token
  | [] => ofWord begun
  | c :: cs =>
    match signs? c with
    | some signs => ofWord begun ++ (signs ++ scan [] cs)
    | none => scan (begun ++ [c]) cs

/-- Is a text one word? -/
def isWord (s : String) : Bool := !s.isEmpty && s.toList.all fun c => (signs? c).isNone

theorem isWord_iff {s : String} :
    isWord s = true ↔ s ≠ "" ∧ ∀ c ∈ s.toList, signs? c = none := by
  simp [isWord]

theorem ofWord_toList {s : String} (h : s ≠ "") : ofWord s.toList = [word s] := by
  unfold ofWord
  split
  · rename_i hnil
    exact absurd (String.toList_eq_nil_iff.mp hnil) h
  · rw [String.ofList_toList]

theorem scan_plain {cs : List Char} (h : ∀ c ∈ cs, signs? c = none) (begun rest : List Char) :
    scan begun (cs ++ rest) = scan (begun ++ cs) rest := by
  induction cs generalizing begun with
  | nil => rw [List.append_nil, List.nil_append]
  | cons c cs ih =>
    rw [List.cons_append, scan, h c List.mem_cons_self]
    show scan (begun ++ [c]) (cs ++ rest) = _
    rw [ih fun c hc => h c (List.mem_cons_of_mem _ hc), List.append_assoc, List.singleton_append]

theorem scan_sign {c : Char} (signs : List Token) (h : signs? c = some signs)
    (begun rest : List Char) :
    scan begun (c :: rest) = ofWord begun ++ (signs ++ scan [] rest) := by
  rw [scan, h]

/-- A word ends the text. -/
theorem scan_word {s : String} (h : isWord s = true) : scan [] s.toList = [word s] := by
  obtain ⟨hne, hplain⟩ := isWord_iff.mp h
  have hscan := scan_plain hplain [] []
  rw [List.append_nil, List.nil_append] at hscan
  rw [hscan, scan, ofWord_toList hne]

/-- A word stands before a sign or a blank. -/
theorem scan_word_sign {s : String} (h : isWord s = true) {c : Char} (signs : List Token)
    (hc : signs? c = some signs) (rest : List Char) :
    scan [] (s.toList ++ c :: rest) = word s :: (signs ++ scan [] rest) := by
  obtain ⟨hne, hplain⟩ := isWord_iff.mp h
  rw [scan_plain hplain, List.nil_append, scan_sign signs hc, ofWord_toList hne]
  rfl

end Token

/-! ### Assignments -/

open Token

/-- The assignments that words and signs make, with commas in between. -/
def assignments? : List Token → Option Update
  | [word name, equals, word value] => some [(name, value)]
  | word name :: equals :: word value :: comma :: rest =>
    (assignments? rest).map fun u => (name, value) :: u
  | _ => none

namespace Update

/-- The assignments that a text makes. -/
def read? (s : String) : Option Update :=
  match scan [] s.toList with
  | word verb :: rest => if verb = "SET" then assignments? rest else none
  | _ => none

/-- Do both sides of an assignment stand for something? -/
def isBound (b : Bindings) (a : String × String) : Bool :=
  (b.names.get? a.1).isSome && (b.values.get? a.2).isSome

/-- The item after an update that comes as a text.  There is none if the text cannot be read or a
placeholder stands for nothing. -/
def applyText? (b : Bindings) (s : String) (item : Item) : Option Item :=
  (read? s).bind fun u => if u.all (isBound b) then some (u.apply b item) else none

/-- Is each side of an assignment one word? -/
def isPlain (a : String × String) : Bool := isWord a.1 && isWord a.2

/-- The text of one assignment. -/
def clause (a : String × String) : String := a.1 ++ " = " ++ a.2

theorem scan_clause {a : String × String} (hname : isWord a.1 = true) (rest : List Char) :
    scan [] ((clause a).toList ++ rest) =
      word a.1 :: equals :: scan [] (a.2.toList ++ rest) := by
  have htext : (clause a).toList ++ rest =
      a.1.toList ++ ' ' :: '=' :: ' ' :: (a.2.toList ++ rest) := by
    simp [clause]
  rw [htext, scan_word_sign hname [] rfl, scan_sign [equals] rfl, scan_sign [] rfl]
  rfl

/-- Assignments with commas in between are read one after the other. -/
theorem assignments?_clauses {u : Update} (hne : u ≠ []) (plain : u.all isPlain = true) :
    assignments? (scan [] (", ".intercalate (u.map clause)).toList) = some u := by
  induction u with
  | nil => exact absurd rfl hne
  | cons a u ih =>
    obtain ⟨hplain, rest⟩ := Bool.and_eq_true_iff.mp plain
    obtain ⟨hname, hvalue⟩ := Bool.and_eq_true_iff.mp hplain
    cases u with
    | nil =>
      have hscan := scan_clause hname []
      rw [List.append_nil, List.append_nil, scan_word hvalue] at hscan
      rw [List.map_singleton, String.intercalate_singleton, hscan]
      rfl
    | cons a' u =>
      have htext : (", ".intercalate ((a :: a' :: u).map clause)).toList =
          (clause a).toList ++ ',' :: ' ' :: (", ".intercalate ((a' :: u).map clause)).toList := by
        rw [List.map_cons, String.intercalate_cons_of_ne_nil (by simp)]
        simp
      rw [htext, scan_clause hname, scan_word_sign hvalue [comma] rfl, scan_sign [] rfl]
      show Option.map _ (assignments? (scan [] (", ".intercalate _).toList)) = _
      rw [ih (List.cons_ne_nil a' u) rest]
      rfl

/-- What is read of the text of an update is the update. -/
theorem read?_text {u : Update} (hne : u ≠ []) (plain : u.all isPlain = true) :
    read? u.text = some u := by
  have htext : u.text.toList =
      "SET".toList ++ ' ' :: (", ".intercalate (u.map clause)).toList := by
    unfold text
    rw [String.toList_append]
    rfl
  have hverb : isWord "SET" = true := rfl
  unfold read?
  rw [htext, scan_word_sign hverb [] rfl]
  exact (if_pos rfl).trans (assignments?_clauses hne plain)

/-- A table that is sent the text of an update carries out the update. -/
theorem applyText?_text {b : Bindings} {u : Update} (hne : u ≠ [])
    (plain : u.all isPlain = true) (bound : u.all (isBound b) = true) (item : Item) :
    applyText? b u.text item = some (u.apply b item) := by
  unfold applyText?
  rw [read?_text hne plain]
  exact if_pos bound

end Update

end AtMostOnce.Table
