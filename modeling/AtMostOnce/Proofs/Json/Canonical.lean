/-
The canonical text tells values apart.

What makes it true is that every part of a text shows where it ends: a literal at its
closing quote, a list at its bracket, and a number at the first character that no number
has.  So a text that starts with the text of a value starts with that of no other one
(`told_render`).  Of how numbers are written only this is used: that they are written with
the characters of numbers, and no two of them alike (`Legible`).
-/
import AtMostOnce.Json.Printer
import AtMostOnce.Proofs.Json.Literal
import AtMostOnce.Proofs.Json.Value

namespace AtMostOnce.Json

/-! ### Texts that show where they end -/

/-- May the character stand in a number? -/
def isNumeral (c : Char) : Bool := "-+.eE0123456789".toList.contains c

/-- A number ends where this text begins. -/
def Stops (rest : List Char) : Prop := ∀ c ∈ rest.head?, isNumeral c = false

theorem stops_nil : Stops [] := nofun

theorem stops_cons {c : Char} (h : isNumeral c = false) (rest : List Char) : Stops (c :: rest) := by
  rintro _ ⟨⟩
  exact h

/-- A text that starts with the text of `a` starts with no other one's, among those that have
`q`. -/
def Told {α : Type} (q : α → Prop) (text : α → List Char) (a : α) : Prop :=
  ∀ b, q b → ∀ rest rest', Stops rest → Stops rest' → text a ++ rest = text b ++ rest' →
    a = b ∧ rest = rest'

section

variable {α : Type} {q : α → Prop} {text : α → List Char} {close : Char} {as bs : List α}
  {rest rest' : List Char}

theorem stops_items (hstop : isNumeral close = false) (ls : List α) (rest : List Char) :
    Stops (ls.flatMap (fun a => ',' :: text a) ++ close :: rest) := by
  cases ls with
  | nil => exact stops_cons hstop _
  | cons l ls => exact stops_cons (by decide) _

/-- What is written with a comma in front of each item and closed by a bracket is told item by
item. -/
theorem told_items (hclose : close ≠ ',') (hstop : isNumeral close = false)
    (h : ∀ a ∈ as, Told q text a) (hbs : ∀ b ∈ bs, q b)
    (heq : as.flatMap (fun a => ',' :: text a) ++ close :: rest =
      bs.flatMap (fun b => ',' :: text b) ++ close :: rest') : as = bs ∧ rest = rest' := by
  induction as generalizing bs with
  | nil =>
    cases bs with
    | nil => exact ⟨rfl, (List.cons.inj heq).2⟩
    | cons b bs => exact absurd (List.cons.inj heq).1 hclose
  | cons a as ih =>
    cases bs with
    | nil => exact absurd (List.cons.inj heq).1.symm hclose
    | cons b bs =>
      rw [List.forall_mem_cons] at h hbs
      simp only [List.flatMap_cons, List.append_assoc, List.cons_append] at heq
      obtain ⟨rfl, htail⟩ := h.1 b hbs.1 _ _ (stops_items hstop as rest)
        (stops_items hstop bs rest') (List.cons.inj heq).2
      obtain ⟨rfl, hrest⟩ := ih h.2 hbs.2 htail
      exact ⟨rfl, hrest⟩

/-- What is written with commas between the items and closed by a bracket is told, if no item starts
with that bracket. -/
theorem told_list {body : List α → List Char} (nil : body [] = [])
    (cons : ∀ a as, body (a :: as) = text a ++ as.flatMap fun b => ',' :: text b)
    (hclose : close ≠ ',') (hstop : isNumeral close = false)
    (hopen : ∀ a, q a → ∀ rest rest', text a ++ rest ≠ close :: rest')
    (h : ∀ a ∈ as, Told q text a) (has : ∀ a ∈ as, q a) (hbs : ∀ b ∈ bs, q b)
    (heq : body as ++ close :: rest = body bs ++ close :: rest') : as = bs ∧ rest = rest' := by
  cases as with
  | nil =>
    cases bs with
    | nil =>
      rw [nil] at heq
      exact ⟨rfl, (List.cons.inj heq).2⟩
    | cons b bs =>
      rw [nil, cons, List.append_assoc] at heq
      exact absurd heq.symm (hopen b (hbs b List.mem_cons_self) _ _)
  | cons a as =>
    cases bs with
    | nil =>
      rw [nil, cons, List.append_assoc] at heq
      exact absurd heq (hopen a (has a List.mem_cons_self) _ _)
    | cons b bs =>
      rw [List.forall_mem_cons] at h hbs
      rw [cons, cons, List.append_assoc, List.append_assoc] at heq
      obtain ⟨rfl, htail⟩ := h.1 b hbs.1 _ _ (stops_items hstop as rest)
        (stops_items hstop bs rest') heq
      obtain ⟨rfl, hrest⟩ := told_items hclose hstop h.2 hbs.2 htail
      exact ⟨rfl, hrest⟩

end

/-- Characters of one class are told from the rest of a text that starts with none. -/
theorem numerals_append_inj {ds es rest rest' : List Char} (hds : ∀ c ∈ ds, isNumeral c = true)
    (hes : ∀ c ∈ es, isNumeral c = true) (hrest : Stops rest) (hrest' : Stops rest')
    (h : ds ++ rest = es ++ rest') : ds = es ∧ rest = rest' := by
  have take : ∀ {ls rest : List Char}, (∀ c ∈ ls, isNumeral c = true) → Stops rest →
      (ls ++ rest).takeWhile isNumeral = ls := by
    intro ls rest hls hrest
    rw [List.takeWhile_append_of_pos hls]
    cases rest with
    | nil => simp
    | cons c rest => simp [hrest c rfl]
  have hds' := take hds hrest
  rw [h, take hes hrest'] at hds'
  subst hds'
  exact ⟨rfl, List.append_cancel_left h⟩

/-! ### Numbers -/

/-- Numbers with `p` are written with the characters of numbers, and no two of them alike. -/
structure Legible (p : Number → Prop) : Prop where
  injective : ∀ m, p m → ∀ n, p n → m.render = n.render → m = n
  numerals : ∀ n, p n → n.render ≠ [] ∧ ∀ c ∈ n.render, isNumeral c = true

theorem Legible.told {p : Number → Prop} (h : Legible p) {n : Number} (hn : p n) :
    Told p Number.render n := by
  intro m hm rest rest' hrest hrest' heq
  obtain ⟨htext, hrest⟩ := numerals_append_inj (h.numerals n hn).2 (h.numerals m hm).2 hrest hrest'
    heq
  exact ⟨h.injective n hn m hm htext, hrest⟩

/-! ### Values -/

namespace Value

/-- All numbers in the value have `p`. -/
inductive Over (p : Number → Prop) : Value → Prop
  | null : Over p .null
  | bool (b : Bool) : Over p (.bool b)
  | number {n : Number} (h : p n) : Over p (.number n)
  | string (s : String) : Over p (.string s)
  | array {items : List Value} (h : ∀ v ∈ items, Over p v) : Over p (.array items)
  | object {ms : Members} (h : ∀ m ∈ ms, Over p m.2) : Over p (.object ms)

variable {p : Number → Prop} {v w : Value}

theorem Same.over (h : Same v w) (hv : v.Over p) : w.Over p := by
  induction h with
  | refl => exact hv
  | trans _ _ ih ih' => exact ih' (ih hv)
  | reorder hperm =>
    cases hv with
    | object h => exact .object fun m hm => h m (hperm.mem_iff.mpr hm)
  | item before after _ ih =>
    cases hv with
    | array h => exact .array (forall_mem_replaced h ih)
  | member before after key _ ih =>
    cases hv with
    | object h => exact .object (forall_mem_replaced h ih)

/-- The text of a member. -/
def renderMember (m : String × Value) : List Char := quote m.1 ++ ':' :: render m.2

theorem renderItems_cons (v : Value) (rest : List Value) :
    renderItems (v :: rest) = render v ++ rest.flatMap fun w => ',' :: render w := by
  induction rest generalizing v with
  | nil => simp [renderItems]
  | cons w rest ih => rw [renderItems, ih, List.flatMap_cons, List.cons_append]

theorem renderMembers_cons (m : String × Value) (rest : Members) :
    renderMembers (m :: rest) = renderMember m ++ rest.flatMap fun n => ',' :: renderMember n := by
  induction rest generalizing m with
  | nil => simp [renderMembers, renderMember]
  | cons n rest ih =>
    obtain ⟨key, v⟩ := m
    rw [renderMembers, ih, List.flatMap_cons]
    simp [renderMember]

/-! ### Kinds -/

inductive Kind where
  | null
  | bool
  | number
  | string
  | array
  | object
  deriving DecidableEq

def kind : Value → Kind
  | null => .null
  | bool _ => .bool
  | number _ => .number
  | string _ => .string
  | array _ => .array
  | object _ => .object

/-- What a value is, by the first character of its text. -/
def kindOf? (c : Char) : Option Kind :=
  if c = 'n' then some .null
  else if c = 't' ∨ c = 'f' then some .bool
  else if c = '"' then some .string
  else if c = '[' then some .array
  else if c = '\x7b' then some .object
  else if isNumeral c then some .number
  else none

theorem kindOf?_isNumeral {c : Char} (h : isNumeral c = true) : kindOf? c = some .number := by
  have all : ∀ c ∈ "-+.eE0123456789".toList, kindOf? c = some .number := by
    simp [kindOf?, isNumeral]
  exact all c (List.contains_iff_mem.mp h)

theorem render_head (printing : Legible p) (hv : v.Over p) :
    ∃ c rest, v.render = c :: rest ∧ kindOf? c = some v.kind := by
  cases hv with
  | null => exact ⟨_, _, rfl, rfl⟩
  | bool b => cases b <;> exact ⟨_, _, rfl, rfl⟩
  | @number n hn =>
    obtain ⟨hne, hnumerals⟩ := printing.numerals n hn
    obtain ⟨c, rest, hc⟩ := List.exists_cons_of_ne_nil hne
    exact ⟨c, rest, hc, kindOf?_isNumeral (hnumerals c (hc ▸ List.mem_cons_self))⟩
  | string s => exact ⟨_, _, rfl, rfl⟩
  | array h => exact ⟨_, _, rfl, rfl⟩
  | object h => exact ⟨_, _, rfl, rfl⟩

theorem kind_eq (printing : Legible p) (hv : v.Over p) (hw : w.Over p) {rest rest' : List Char}
    (h : v.render ++ rest = w.render ++ rest') : v.kind = w.kind := by
  obtain ⟨c, cs, hc, hkind⟩ := render_head printing hv
  obtain ⟨d, ds, hd, hkind'⟩ := render_head printing hw
  rw [hc, hd] at h
  rw [(List.cons.inj h).1, hkind'] at hkind
  exact (Option.some.inj hkind).symm

theorem render_ne_cons (printing : Legible p) (hv : v.Over p) {c : Char} (hc : kindOf? c = none)
    (rest rest' : List Char) : v.render ++ rest ≠ c :: rest' := by
  obtain ⟨d, ds, hd, hkind⟩ := render_head printing hv
  intro h
  rw [hd] at h
  rw [(List.cons.inj h).1, hc] at hkind
  cases hkind

/-! ### Texts of values -/

theorem told_member {m : String × Value} (h : Told (Over p) render m.2) :
    Told (fun m => Over p m.2) renderMember m := by
  intro n hn rest rest' hrest hrest' heq
  unfold renderMember at heq
  rw [List.append_assoc, List.append_assoc] at heq
  obtain ⟨hkey, hvalue⟩ := quote_append_inj heq
  obtain ⟨hv, hrest⟩ := h n.2 hn rest rest' hrest hrest' (List.cons.inj hvalue).2
  exact ⟨Prod.ext hkey hv, hrest⟩

/-- **A text that starts with the text of a value starts with that of no other one.** -/
theorem told_render (printing : Legible p) (hv : v.Over p) : Told (Over p) render v := by
  induction v using Value.induction with
  | null =>
    intro w hw rest rest' _ _ heq
    have hkind := kind_eq printing hv hw heq
    cases w with
    | null => exact ⟨rfl, List.append_cancel_left heq⟩
    | _ => cases hkind
  | bool b =>
    intro w hw rest rest' _ _ heq
    have hkind := kind_eq printing hv hw heq
    cases w with
    | bool b' =>
      have hb : b = b' := by
        cases b <;> cases b' <;> first | rfl | exact absurd (List.cons.inj heq).1 (by decide)
      subst hb
      exact ⟨rfl, List.append_cancel_left heq⟩
    | _ => cases hkind
  | number n =>
    intro w hw rest rest' hrest hrest' heq
    have hkind := kind_eq printing hv hw heq
    cases w with
    | number m =>
      cases hv with
      | number hn =>
        cases hw with
        | number hm =>
          obtain ⟨rfl, hrest⟩ := printing.told hn m hm rest rest' hrest hrest' heq
          exact ⟨rfl, hrest⟩
    | _ => cases hkind
  | string s =>
    intro w hw rest rest' _ _ heq
    have hkind := kind_eq printing hv hw heq
    cases w with
    | string t =>
      obtain ⟨rfl, hrest⟩ := quote_append_inj heq
      exact ⟨rfl, hrest⟩
    | _ => cases hkind
  | array items ih =>
    intro w hw rest rest' _ _ heq
    have hkind := kind_eq printing hv hw heq
    cases w with
    | array items' =>
      cases hv with
      | array hitems =>
        cases hw with
        | array hitems' =>
          have hbody : renderItems items ++ ']' :: rest = renderItems items' ++ ']' :: rest' := by
            simpa [render] using heq
          obtain ⟨rfl, hrest⟩ := told_list rfl renderItems_cons (by decide) (by decide)
            (fun v hv => render_ne_cons printing hv (by decide))
            (fun v hmem => ih v hmem (hitems v hmem)) hitems hitems' hbody
          exact ⟨rfl, hrest⟩
    | _ => cases hkind
  | object ms ih =>
    intro w hw rest rest' _ _ heq
    have hkind := kind_eq printing hv hw heq
    cases w with
    | object ns =>
      cases hv with
      | object hms =>
        cases hw with
        | object hns =>
          have hbody : renderMembers ms ++ '\x7d' :: rest =
              renderMembers ns ++ '\x7d' :: rest' := by
            simpa [render] using heq
          obtain ⟨rfl, hrest⟩ := told_list (q := fun m => Over p m.2) rfl renderMembers_cons
            (by decide) (by decide) (fun m _ _ _ => by simp [renderMember, quote])
            (fun m hmem => told_member (ih m hmem (hms m hmem))) hms hns hbody
          exact ⟨rfl, hrest⟩
    | _ => cases hkind

theorem render_inj (printing : Legible p) (hv : v.Over p) (hw : w.Over p)
    (h : v.render = w.render) : v = w :=
  (told_render printing hv w hw [] [] stops_nil stops_nil (by rw [h])).1

/-- **Two values have one canonical text exactly if they are the same.** -/
theorem canonical_eq_iff (printing : Legible p) (hv : v.Over p) (hw : w.Over p) (kv : v.Keyed) :
    v.canonical = w.canonical ↔ v.Same w := by
  constructor
  · intro h
    have hsorted : v.sortKeys = w.sortKeys :=
      render_inj printing ((same_sortKeys v).over hv) ((same_sortKeys w).over hw)
        (String.ofList_injective h)
    exact (same_sortKeys v).trans (hsorted ▸ (same_sortKeys w).symm)
  · intro h
    rw [canonical, canonical, h.sortKeys_eq kv]

end Value

end AtMostOnce.Json
