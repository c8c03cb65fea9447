/-
What is hashed of a payload.

A key and a payload's digest are both computed from one message: the bytes of the
canonical text of what the selector finds.  The bytes tell the texts apart
(`message_eq_iff`) and the texts tell the values apart, so two payloads are hashed alike
exactly if the same is selected from both (`hashed_alike_iff`).
-/
import AtMostOnce.PayloadCheck
import AtMostOnce.Proofs.Json.Canonical
import AtMostOnce.Proofs.Key
import AtMostOnce.Proofs.Selector.Node

namespace AtMostOnce

/-! ### Bytes -/

namespace Text

theorem toList_loop_eq (bytes : ByteArray) (i : Nat) (read : List UInt8) :
    ByteArray.toList.loop bytes i read = read.reverse ++ bytes.data.toList.drop i := by
  induction i, read using ByteArray.toList.loop.induct bytes with
  | case1 i read hlt ih =>
    have hi : i < bytes.data.toList.length := by simpa using hlt
    have hget : bytes.get! i = bytes.data.toList[i] := by
      rw [Array.getElem_toList]
      exact getElem!_pos bytes.data i (by simpa using hlt)
    rw [ByteArray.toList.loop, if_pos hlt, ih, List.drop_eq_getElem_cons hi, hget]
    simp
  | case2 i read hge =>
    have hi : bytes.data.toList.length ≤ i := by simpa using hge
    rw [ByteArray.toList.loop, if_neg hge, List.drop_eq_nil_of_le hi, List.append_nil]

/-- No two texts have the same bytes. -/
theorem bytes_inj {s t : String} : s.toUTF8.toList = t.toUTF8.toList ↔ s = t := by
  refine ⟨fun h => ?_, fun h => h ▸ rfl⟩
  rw [ByteArray.toList, ByteArray.toList, toList_loop_eq, toList_loop_eq] at h
  exact String.toByteArray_inj.mp (ByteArray.ext (Array.toList_inj.mp (by simpa using h)))

end Text

open AtMostOnce.Json

namespace HashFunction

/-- The message that a value is hashed as. -/
def message (v : Value) : List UInt8 := v.canonical.toUTF8.toList

theorem message_eq_iff {v w : Value} : message v = message w ↔ v.canonical = w.canonical :=
  Text.bytes_inj

end HashFunction

/-! ### Payloads -/

open HashFunction (message)

theorem KeyRule.derive_eq_message {rule : KeyRule} {payload : Value} {k : Key}
    (h : rule.derive payload = .ok k) :
    k = Key.compose rule.scope (rule.hash.hex (message (rule.selector.search payload))) :=
  Engine.derive_eq h

theorem PayloadCheck.compute_eq_message {check : PayloadCheck} {selector : Selector}
    (h : check.selector = some selector) (payload : Value) :
    check.compute payload = check.hash.hex (message (selector.search payload)) := by
  rw [compute, h]
  rfl

/-- **Values have one canonical text exactly if they differ in the order of members only, and two
payloads are hashed alike, for a key as for a check, exactly if what is selected from the one is
what is selected from the other.** -/
theorem Selector.hashed_alike_iff {p : Number → Prop} (printing : Legible p) :
    (∀ v w : Value, v.Over p → w.Over p → v.Keyed → w.Keyed →
      (v.canonical = w.canonical ↔ v.Same w)) ∧
    (∀ (selector selector' : Selector) (payload payload' : Value),
      payload.Keyed → payload'.Keyed →
      (selector.search payload).Over p → (selector'.search payload').Over p →
      (message (selector.search payload) = message (selector'.search payload') ↔
        (selector.search payload).Same (selector'.search payload'))) ∧
    (∀ (rule : KeyRule) (payload : Value) (k : Key), rule.derive payload = .ok k →
      k = Key.compose rule.scope (rule.hash.hex (message (rule.selector.search payload)))) ∧
    ∀ (check : PayloadCheck) (selector : Selector) (payload : Value),
      check.selector = some selector →
      check.compute payload = check.hash.hex (message (selector.search payload)) := by
  refine ⟨?_, ?_, fun rule payload k => KeyRule.derive_eq_message,
    fun check selector payload h => PayloadCheck.compute_eq_message h payload⟩
  · intro v w hv hw kv _
    exact Value.canonical_eq_iff printing hv hw kv
  · intro selector selector' payload payload' kv _ hv hw
    rw [HashFunction.message_eq_iff]
    exact Value.canonical_eq_iff printing hv hw (selector.node.search_keyed kv)

/-! An order whose members are listed in two ways, and two lists of which the one holds the other's
text between two items. -/

namespace Selector

/-- The numbers of the order. -/
def prices : List Number := [.integer 2, .double 0x3FF8000000000000, .double 0x7E37E43C8800759C]

def price : Value :=
  .object [("net", .number (.double 0x3FF8000000000000)), ("gross", .number (.integer 2))]

def order : Value := .object [("item", .string "A\"1"), ("price", price)]

def reordered : Value :=
  .object [("price", .object [("gross", .number (.integer 2)),
    ("net", .number (.double 0x3FF8000000000000))]), ("item", .string "A\"1")]

theorem legible_prices : Legible (· ∈ prices) where
  injective := by decide +kernel
  numerals n hn := by
    have all : ∀ n ∈ prices, n.render ≠ [] ∧ n.render.all isNumeral = true := by decide +kernel
    exact ⟨(all n hn).1, List.all_eq_true.mp (all n hn).2⟩

theorem order_reordered : order.Same reordered :=
  (Value.Same.reorder (.swap _ _ _)).trans
    (.member [] _ "price" (.reorder (.swap _ _ _)))

theorem order_keyed : order.Keyed := by
  refine .object (by simp [Assoc.Distinct]) ?_
  simp only [List.forall_mem_cons]
  refine ⟨.string _, .object (by simp [Assoc.Distinct]) ?_, List.forall_mem_nil _⟩
  simp only [List.forall_mem_cons]
  exact ⟨.number _, .number _, List.forall_mem_nil _⟩

theorem order_over : order.Over (· ∈ prices) := by
  refine .object ?_
  simp only [List.forall_mem_cons]
  refine ⟨.string _, .object ?_, List.forall_mem_nil _⟩
  simp only [List.forall_mem_cons]
  exact ⟨.number (by decide), .number (by decide), List.forall_mem_nil _⟩

def strings (ss : List String) : Value := .array (ss.map .string)

theorem strings_over {p : Number → Prop} (ss : List String) : (strings ss).Over p :=
  .array (List.forall_mem_map.mpr fun s _ => .string s)

theorem strings_keyed (ss : List String) : (strings ss).Keyed :=
  .array (List.forall_mem_map.mpr fun s _ => .string s)

theorem reordered_hashed_alike :
    Legible (· ∈ prices) ∧
      message (identity.search order) = message (identity.search reordered) ∧
      ¬ (strings ["a\",\"b"]).Same (strings ["a", "b"]) ∧
      message (identity.search (strings ["a\",\"b"])) ≠
        message (identity.search (strings ["a", "b"])) := by
  obtain ⟨texts, messages, -, -⟩ := hashed_alike_iff legible_prices
  have apart : ¬ (strings ["a\",\"b"]).Same (strings ["a", "b"]) := by
    rw [← texts _ _ (strings_over _) (strings_over _) (strings_keyed _) (strings_keyed _)]
    decide
  refine ⟨legible_prices, ?_, apart, ?_⟩
  · exact (messages identity identity order reordered order_keyed
      (order_reordered.keyed order_keyed) order_over (order_reordered.over order_over)).mpr
      order_reordered
  · exact mt (messages identity identity _ _ (strings_keyed _) (strings_keyed _) (strings_over _)
      (strings_over _)).mp apart

end Selector

end AtMostOnce
