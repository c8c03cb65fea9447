/-
Which fields of a payload a node reads.

Only the names in front read an object itself: the right side of a chain starts from what
its left side has selected, and a text is decoded after it was selected.  So two objects
that agree on the names in front are one object to the node (`search_congr`), and whoever
controls other fields only has no influence on what is selected.  The key and the digest
are made of what is selected, and a call sees nothing else of its payload (`run_congr`).
-/
import AtMostOnce.Engine
import AtMostOnce.Proofs.Selector.Node

namespace AtMostOnce

open AtMostOnce.Json

/-- Do two objects agree on some names?  Under each of them both hold the same value, or neither
holds any. -/
def Json.Members.AgreeOn (names : List String) (ms ms' : Members) : Prop :=
  ∀ name ∈ names, Assoc.get? ms name = Assoc.get? ms' name

theorem Json.Members.AgreeOn.mono {names more : List String} {ms ms' : Members}
    (h : AgreeOn more ms ms') (hsub : names ⊆ more) : AgreeOn names ms ms' :=
  fun name hname => h name (hsub hname)

namespace Selector.Node

/-! ### What is read -/

/-- What two nodes read together, which is everything if one of them reads everything. -/
def together : Option (List String) → Option (List String) → Option (List String)
  | some names, some more => some (names ++ more)
  | _, _ => none

mutual

/-- The fields of an object that a node reads; `none` stands for the object as a whole. -/
def reads? : Node → Option (List String)
  | current => none
  | field name => some [name]
  | index _ => none
  | chain left _ => reads? left
  | list items => readsOfItems? items
  | hash entries => readsOfEntries? entries
  | decoded argument => reads? argument

/-- The fields that some items read. -/
def readsOfItems? : List Node → Option (List String)
  | [] => some []
  | n :: rest => together (reads? n) (readsOfItems? rest)

/-- The fields that some entries read. -/
def readsOfEntries? : List (String × Node) → Option (List String)
  | [] => some []
  | (_, n) :: rest => together (reads? n) (readsOfEntries? rest)

end

theorem together_some {a b : Option (List String)} {names : List String}
    (h : together a b = some names) :
    ∃ xs ys, a = some xs ∧ b = some ys ∧ names = xs ++ ys := by
  unfold together at h
  split at h
  · cases h
    exact ⟨_, _, rfl, rfl, rfl⟩
  · cases h

/-- An item reads no more than all items together. -/
theorem reads?_of_mem {items : List Node} {names : List String}
    (h : readsOfItems? items = some names) {n : Node} (hn : n ∈ items) :
    ∃ xs, n.reads? = some xs ∧ xs ⊆ names := by
  induction items generalizing names with
  | nil => cases hn
  | cons m rest ih =>
    obtain ⟨xs, ys, hm, hrest, rfl⟩ := together_some h
    rcases List.mem_cons.mp hn with rfl | hn
    · exact ⟨xs, hm, List.subset_append_left xs ys⟩
    · obtain ⟨zs, hzs, hsub⟩ := ih hrest hn
      exact ⟨zs, hzs, fun name hname => List.mem_append_right xs (hsub hname)⟩

/-- Entries read what their nodes read. -/
theorem readsOfEntries?_eq (entries : List (String × Node)) :
    readsOfEntries? entries = readsOfItems? (entries.map Prod.snd) := by
  induction entries with
  | nil => rfl
  | cons e rest ih =>
    rw [readsOfEntries?, ih]
    rfl

/-! ### What is not read has no influence -/

/-- **A node selects the same from two objects that agree on the fields it reads.** -/
theorem search_congr {n : Node} {names : List String} {ms ms' : Members}
    (hreads : n.reads? = some names) (h : Members.AgreeOn names ms ms') :
    n.search (.object ms) = n.search (.object ms') := by
  induction n using Node.induction generalizing names with
  | current => cases hreads
  | field name =>
    cases hreads
    exact congrArg (·.getD .null) (h name List.mem_cons_self)
  | index i => cases hreads
  | chain left right ihl _ =>
    -- the right side starts from one value
    rw [search, search, ihl hreads h]
  | list items ih =>
    rw [search, search, searchItems_eq_map, searchItems_eq_map]
    refine congrArg Value.array (List.map_congr_left fun n hn => ?_)
    obtain ⟨xs, hxs, hsub⟩ := reads?_of_mem hreads hn
    exact ih n hn hxs (h.mono hsub)
  | hash entries ih =>
    rw [search, search, searchEntries_eq_map, searchEntries_eq_map]
    refine congrArg (fun es => Value.object (Members.ofList es))
      (List.map_congr_left fun e he => ?_)
    rw [reads?, readsOfEntries?_eq] at hreads
    obtain ⟨xs, hxs, hsub⟩ := reads?_of_mem hreads (List.mem_map_of_mem he)
    rw [ih e he hxs (h.mono hsub)]
  | decoded argument ih => rw [search, search, ih hreads h]

end Selector.Node

/-! ### Keys, digests and calls -/

variable {ms ms' : Members} {names : List String}

theorem KeyRule.derive_congr {rule : KeyRule} (hreads : rule.selector.node.reads? = some names)
    (h : Members.AgreeOn names ms ms') :
    rule.warns (.object ms) = rule.warns (.object ms') ∧
      rule.derive (.object ms) = rule.derive (.object ms') := by
  have hsearch : rule.selector.search (.object ms) = rule.selector.search (.object ms') :=
    Selector.Node.search_congr hreads h
  rw [warns, warns, derive, derive, material, material, hsearch]
  exact ⟨rfl, rfl⟩

theorem PayloadCheck.compute_congr {check : PayloadCheck}
    (h : ∀ s, check.selector = some s →
      ∃ names, s.node.reads? = some names ∧ Members.AgreeOn names ms ms') :
    check.compute (.object ms) = check.compute (.object ms') := by
  unfold compute
  split
  · rename_i s hs
    obtain ⟨names, hreads, hagree⟩ := h s hs
    exact congrArg check.hash.ofValue (Selector.Node.search_congr hreads hagree)
  · rfl

/-- **Fields that are not selected have no influence.**  If a selector does not read everything, it
selects the same from two objects that agree on the fields it reads.  So whatever the other fields
hold, a rule with that selector derives the same key, or refuses for the same reason, and a check
with that selector computes the same digest. -/
theorem Selector.unread_irrelevant {s : Selector} (hreads : s.node.reads? = some names)
    (h : Members.AgreeOn names ms ms') :
    s.search (.object ms) = s.search (.object ms') ∧
      (∀ rule : KeyRule, rule.selector = s →
        rule.derive (.object ms) = rule.derive (.object ms')) ∧
      ∀ check : PayloadCheck, check.selector = some s →
        check.compute (.object ms) = check.compute (.object ms') := by
  refine ⟨Node.search_congr hreads h, fun rule hrule => ?_, fun check hcheck => ?_⟩
  · subst hrule
    exact (KeyRule.derive_congr hreads h).2
  · refine PayloadCheck.compute_congr fun s' hs' => ⟨names, ?_, h⟩
    rw [Option.some.inj (hcheck.symm.trans hs')] at hreads
    exact hreads

/-- Of a payload in which the order stands in a text, only the customer and the text are read. -/
theorem Selector.unread_irrelevant_note :
    let node : Node := .list [.chain (.field "customer") (.field "id"),
      .chain (.decoded (.field "body")) (.field "order")]
    let shared : Members := [("body", .string "\x7b\"order\":7\x7d"),
      ("customer", .object [("id", .string "ann")])]
    let s : Selector := ⟨String.ofList node.render, node⟩
    s.node.wellFormed = true ∧ s.node.reads? = some ["customer", "body"] ∧
      s.search (.object shared) = s.search (.object (shared ++ [("note", .string "urgent")])) := by
  intro node shared s
  have hreads : s.node.reads? = some ["customer", "body"] := rfl
  have hagree : Members.AgreeOn ["customer", "body"] shared
      (shared ++ [("note", .string "urgent")]) :=
    List.forall_mem_cons.mpr ⟨rfl, List.forall_mem_singleton.mpr rfl⟩
  exact ⟨by decide, hreads, (unread_irrelevant hreads hagree).1⟩

namespace Engine

variable {α : Type} {e : Engine}

/-- Two payloads with one key and one digest are one payload to an attempt. -/
theorem attempt_congr {v v' : Value} (hwarns : e.rule.warns v = e.rule.warns v')
    (hkey : e.rule.derive v = e.rule.derive v') (hdigest : e.check.compute v = e.check.compute v')
    (encoding : Encoding α) (remaining : Option Nat) (n : Nat) (started : Bool) :
    e.attempt encoding v remaining n started = e.attempt encoding v' remaining n started := by
  rw [attempt, attempt, deriveKey, deriveKey, hwarns, hkey, hdigest]

theorem attempts_congr {v v' : Value} (hwarns : e.rule.warns v = e.rule.warns v')
    (hkey : e.rule.derive v = e.rule.derive v') (hdigest : e.check.compute v = e.check.compute v')
    (encoding : Encoding α) (remaining : Option Nat) (retries n : Nat) (started : Bool) :
    e.attempts encoding v remaining retries n started =
      e.attempts encoding v' remaining retries n started := by
  induction retries generalizing n started with
  | zero => rw [attempts, attempts, attempt_congr hwarns hkey hdigest]
  | succ retries ih =>
    rw [attempts, attempts, attempt_congr hwarns hkey hdigest]
    simp only [ih]

/-- **A call sees nothing of its payload but what its selectors read.**  With two payloads that
agree there, it says the same to everyone and ends the same way, whatever it is answered. -/
theorem run_congr (hkey : e.rule.selector.node.reads? = some names)
    (hagree : Members.AgreeOn names ms ms')
    (hcheck : ∀ s, e.check.selector = some s →
      ∃ names, s.node.reads? = some names ∧ Members.AgreeOn names ms ms')
    (encoding : Encoding α) (remaining : Option Nat) :
    e.run encoding (.ok (.object ms)) remaining = e.run encoding (.ok (.object ms')) remaining := by
  obtain ⟨hwarns, hderive⟩ := KeyRule.derive_congr hkey hagree
  rw [run, run]
  split
  · rfl
  · exact attempts_congr hwarns hderive (PayloadCheck.compute_congr hcheck) _ _ _ _ _

end Engine

end AtMostOnce
