/-
Which functions share keys.

A key splits at its last `#`, for a digest holds none (`scope_compose`, `digest_compose`).
So two keys are equal exactly if their scopes and their digests are (`SplitsInto.eq_iff`).
A scope does not split: its dot joins the deployed function's name and the wrapped one's, and
either name may hold dots.  Two functions have one scope if a dotted part stands in front of the
wrapped function's name in the one and behind the deployed function's name in the other
(`scope_eq_iff`); all other functions are kept apart (`keys_separate_iff`).
-/
import AtMostOnce.Engine
import AtMostOnce.Proofs.Digest
import Mathlib.Tactic.Basic

namespace AtMostOnce

/-! ### The two parts of a key -/

namespace Text

/-- A hexadecimal digit, in lower case. -/
def IsHexDigit (c : Char) : Prop := c ∈ "0123456789abcdef".toList

instance (c : Char) : Decidable (IsHexDigit c) := inferInstanceAs (Decidable (_ ∈ _))

theorem isHexDigit_hexDigit {n : Nat} (h : n < 16) : IsHexDigit (hexDigit n) := by
  have all : ∀ n < 16, IsHexDigit (hexDigit n) := by decide
  exact all n h

theorem isHexDigit_of_mem_hexBytes {bytes : List UInt8} {c : Char} (h : c ∈ hexBytes bytes) :
    IsHexDigit c := by
  obtain ⟨b, -, hc⟩ := List.mem_flatMap.mp h
  have hb : b.toNat < 256 := b.toNat_lt
  rcases List.mem_cons.mp hc with rfl | hc
  · exact isHexDigit_hexDigit (by omega)
  · obtain rfl := List.mem_singleton.mp hc
    exact isHexDigit_hexDigit (by omega)

end Text

namespace HashFunction

theorem isHexDigit_of_mem_hex {h : HashFunction} {message : List UInt8} {c : Char}
    (hc : c ∈ (h.hex message).toList) : Text.IsHexDigit c := by
  rw [hex, String.toList_ofList] at hc
  exact Text.isHexDigit_of_mem_hexBytes hc

theorem separator_notMem_ofValue (h : HashFunction) (v : Json.Value) :
    '#' ∉ (h.ofValue v).toList := by
  intro hmem
  exact absurd (isHexDigit_of_mem_hex hmem) (by decide)

end HashFunction

namespace Key

theorem splitLast_of_notMem {sep : Char} {cs : List Char} (h : sep ∉ cs) :
    splitLast sep cs = none := by
  induction cs with
  | nil => rfl
  | cons c cs ih =>
    rw [List.mem_cons, not_or] at h
    rw [splitLast, ih h.2]
    exact if_neg (Ne.symm h.1)

/-- What stands before the last separator may hold separators of its own. -/
theorem splitLast_append {sep : Char} (front : List Char) {back : List Char} (h : sep ∉ back) :
    splitLast sep (front ++ sep :: back) = some (front, back) := by
  induction front with
  | nil => simp [splitLast, splitLast_of_notMem h]
  | cons c front ih => rw [List.cons_append, splitLast, ih]

theorem toList_compose (scope digest : String) :
    (compose scope digest).text.toList = scope.toList ++ '#' :: digest.toList := by
  simp [compose]

variable {s d s' d' : String}

theorem scope_compose (h : '#' ∉ d.toList) : (compose s d).scope = s := by
  rw [scope, toList_compose, splitLast_append _ h]
  exact String.ofList_toList

theorem digest_compose (h : '#' ∉ d.toList) : (compose s d).digest = d := by
  rw [digest, toList_compose, splitLast_append _ h]
  exact String.ofList_toList

theorem compose_inj (h : '#' ∉ d.toList) (h' : '#' ∉ d'.toList) :
    compose s d = compose s' d' ↔ s = s' ∧ d = d' := by
  refine ⟨fun heq => ⟨?_, ?_⟩, fun ⟨hs, hd⟩ => by rw [hs, hd]⟩
  · rw [← scope_compose (s := s) h, heq, scope_compose h']
  · rw [← digest_compose (s := s) h, heq, digest_compose h']

end Key

/-! ### Scopes -/

namespace Engine

/-- A function as its scope names it. -/
structure Callable where
  /-- The deployed function's name, if there is one. -/
  deployed : Option String
  function : String
  deriving DecidableEq

namespace Callable

/-- The function of that name in an environment. -/
def named (env : Environment) (function : String) : Callable := ⟨env.functionName?, function⟩

/-- The scope of a function's keys. -/
def scope (c : Callable) : String :=
  match c.deployed with
  | some deployed => deployed ++ "." ++ c.function
  | none => c.function

/-- A part of the first function's name, up to a dot, is the end of the second one's deployed
name. -/
inductive Shifts : Callable → Callable → Prop
  | onto (part function : String) :
    Shifts ⟨none, part ++ "." ++ function⟩ ⟨some part, function⟩
  | behind (deployed part function : String) :
    Shifts ⟨some deployed, part ++ "." ++ function⟩ ⟨some (deployed ++ "." ++ part), function⟩

variable {c c' : Callable}

theorem Shifts.scope_eq (h : Shifts c c') : c.scope = c'.scope := by
  cases h with
  | onto => rfl
  | behind => simp only [scope, String.append_assoc]

/-- The second of two cuts at a dot is at the same dot, or at a later one with a part between. -/
theorem cut_later {a b a' b' : String} {mid : List Char} (ha : a'.toList = a.toList ++ mid)
    (hb : '.' :: b.toList = mid ++ '.' :: b'.toList) :
    (a = a' ∧ b = b') ∨ ∃ part, a' = a ++ "." ++ part ∧ b = part ++ "." ++ b' := by
  cases mid with
  | nil =>
    refine .inl ⟨?_, ?_⟩
    · rw [← String.toList_inj, ha, List.append_nil]
    · rw [← String.toList_inj]
      exact (List.cons.inj hb).2
  | cons x part =>
    obtain ⟨rfl, hrest⟩ := List.cons.inj hb
    refine .inr ⟨String.ofList part, ?_, ?_⟩
    · rw [← String.toList_inj, ha]
      simp
    · rw [← String.toList_inj, hrest]
      simp

/-- Two ways to cut a text at a dot: at one place, or with a part between the two dots. -/
theorem cut_cases {a b a' b' : String} (h : a ++ "." ++ b = a' ++ "." ++ b') :
    (a = a' ∧ b = b') ∨ (∃ part, a' = a ++ "." ++ part ∧ b = part ++ "." ++ b') ∨
      ∃ part, a = a' ++ "." ++ part ∧ b' = part ++ "." ++ b := by
  have hlist : a.toList ++ '.' :: b.toList = a'.toList ++ '.' :: b'.toList := by
    simpa using congrArg String.toList h
  rcases List.append_eq_append_iff.mp hlist with ⟨mid, ha, hb⟩ | ⟨mid, ha, hb⟩
  · exact (cut_later ha hb).imp_right .inl
  · rcases cut_later ha hb with ⟨rfl, rfl⟩ | later
    · exact .inl ⟨rfl, rfl⟩
    · exact .inr (.inr later)

theorem Shifts.length_lt (h : Shifts c c') : c'.function.length < c.function.length := by
  have hdot : ".".length = 1 := rfl
  cases h with
  | onto => simp only [String.length_append]; omega
  | behind => simp only [String.length_append]; omega

/-- Two functions have one scope exactly if they are the same or one shifts to the other. -/
theorem scope_eq_iff : c.scope = c'.scope ↔ c = c' ∨ Shifts c c' ∨ Shifts c' c := by
  constructor
  · intro h
    obtain ⟨deployed, function⟩ := c
    obtain ⟨deployed', function'⟩ := c'
    cases deployed with
    | none =>
      cases deployed' with
      | none => exact .inl (congrArg _ h)
      | some d' =>
        obtain rfl : function = d' ++ "." ++ function' := h
        exact .inr (.inl (.onto _ _))
    | some d =>
      cases deployed' with
      | none =>
        obtain rfl : d ++ "." ++ function = function' := h
        exact .inr (.inr (.onto _ _))
      | some d' =>
        rcases cut_cases h with ⟨rfl, rfl⟩ | ⟨part, rfl, rfl⟩ | ⟨part, rfl, rfl⟩
        · exact .inl rfl
        · exact .inr (.inl (.behind _ _ _))
        · exact .inr (.inr (.behind _ _ _))
  · rintro (rfl | h | h)
    · rfl
    · exact h.scope_eq
    · exact h.scope_eq.symm

end Callable

/-! ### Keys of engines -/

variable {env env' : Environment} {function function' : String} {settings settings' : Settings}
  {hasCache hasCache' : Bool} {e e' : Engine}

theorem scope_of_build (h : build env function settings hasCache = .ok e) :
    e.rule.scope = (Callable.named env function).scope := by
  simp only [build, bind, Except.bind, pure, Except.pure] at h
  split at h
  · cases h
  split at h
  · cases h
  split at h
  · cases h
  split at h
  · cases h
  cases h
  rfl

/-- With the initial settings the key is that of the whole payload. -/
theorem build_initial (env : Environment) (h : function ≠ "") :
    ∃ e, build env function (.initial env) false = .ok e ∧
      e.rule = ⟨(Callable.named env function).scope, .identity, .blake2b128, false⟩ := by
  have hempty : function.isEmpty = false := by simpa using h
  exact ⟨_, by simp [build, hempty]; rfl, rfl⟩

theorem derive_eq {rule : KeyRule} {payload : Json.Value} {k : Key}
    (h : rule.derive payload = .ok k) :
    k = Key.compose rule.scope (rule.hash.ofValue (rule.selector.search payload)) := by
  unfold KeyRule.derive KeyRule.material at h
  dsimp only at h
  split at h
  · rename_i m hm
    cases h
    split at hm
    · cases hm
    · cases hm
      rfl
  · cases h

/-- Two keys are equal exactly if the functions have one scope and the payloads one digest. -/
theorem key_eq_iff {payload payload' : Json.Value} {k k' : Key}
    (he : build env function settings hasCache = .ok e)
    (he' : build env' function' settings' hasCache' = .ok e')
    (hk : e.rule.derive payload = .ok k) (hk' : e'.rule.derive payload' = .ok k') :
    k = k' ↔
      (Callable.named env function).scope = (Callable.named env' function').scope ∧
        e.rule.hash.ofValue (e.rule.selector.search payload) =
          e'.rule.hash.ofValue (e'.rule.selector.search payload') := by
  rw [derive_eq hk, derive_eq hk', scope_of_build he, scope_of_build he']
  exact Key.compose_inj (HashFunction.separator_notMem_ofValue _ _)
    (HashFunction.separator_notMem_ofValue _ _)

/-- With the initial settings functions of one scope have all keys in common. -/
theorem initial_keys_shared (h : function ≠ "") (h' : function' ≠ "")
    (one : (Callable.named env function).scope = (Callable.named env' function').scope) :
    ∃ e e', build env function (.initial env) false = .ok e ∧
      build env' function' (.initial env') false = .ok e' ∧
      ∀ payload, ∃ k, e.rule.derive payload = .ok k ∧ e'.rule.derive payload = .ok k := by
  obtain ⟨e, he, hrule⟩ := build_initial env h
  obtain ⟨e', he', hrule'⟩ := build_initial env' h'
  rw [← one, ← hrule] at hrule'
  refine ⟨e, e', he, he', fun payload => ?_⟩
  have hk : ∃ k, e.rule.derive payload = .ok k := by
    rw [hrule, KeyRule.derive, KeyRule.material]
    simp
  rw [hrule']
  exact hk.imp fun _ hk => ⟨hk, hk⟩

/-- **Two functions never share a key exactly if neither shifts to the other**, whatever the
settings and the payloads. -/
theorem keys_separate_iff (h : function ≠ "") (h' : function' ≠ "") :
    (∀ settings settings' hasCache hasCache' e e' payload payload' k,
      build env function settings hasCache = .ok e →
      build env' function' settings' hasCache' = .ok e' →
      e.rule.derive payload = .ok k → e'.rule.derive payload' = .ok k →
      Callable.named env function = Callable.named env' function') ↔
    ¬ ((Callable.named env function).Shifts (.named env' function') ∨
      (Callable.named env' function').Shifts (.named env function)) := by
  constructor
  · intro separate shifts
    obtain ⟨e, e', he, he', hshared⟩ :=
      initial_keys_shared h h' (Callable.scope_eq_iff.mpr (.inr shifts))
    obtain ⟨k, hk, hk'⟩ := hshared .null
    have same := separate _ _ _ _ e e' .null .null k he he' hk hk'
    rw [same] at shifts
    exact Nat.lt_irrefl _ (shifts.elim id id).length_lt
  · intro apart settings settings' hasCache hasCache' e e' payload payload' k he he' hk hk'
    rcases Callable.scope_eq_iff.mp ((key_eq_iff he he' hk hk').mp rfl).1 with same | shifts
    · exact same
    · exact absurd shifts apart

/-- The environment of a function deployed under a name. -/
def deployedAs (name : String) : Environment := ⟨some name, none⟩

/-- Nothing is deployed. -/
def undeployed : Environment := ⟨none, none⟩

/-- Names of one length keep functions apart wherever they are deployed, here with a dot in the one
name and in the other one's deployed name. -/
theorem equal_lengths_separate :
    "eu.charge" ≠ "" ∧ "eu-charge" ≠ "" ∧
      ∀ settings settings' hasCache hasCache' e e' payload payload' k,
        build (deployedAs "orders") "eu.charge" settings hasCache = .ok e →
        build (deployedAs "orders.eu") "eu-charge" settings' hasCache' = .ok e' →
        e.rule.derive payload = .ok k → e'.rule.derive payload' ≠ .ok k := by
  have apart : ¬ ((Callable.named (deployedAs "orders") "eu.charge").Shifts
        (.named (deployedAs "orders.eu") "eu-charge") ∨
      (Callable.named (deployedAs "orders.eu") "eu-charge").Shifts
        (.named (deployedAs "orders") "eu.charge")) := by
    rintro (h | h) <;> exact absurd h.length_lt (by decide)
  refine ⟨by decide, by decide, ?_⟩
  intro settings settings' hasCache hasCache' e e' payload payload' k he he' hk hk'
  exact absurd ((keys_separate_iff (by decide) (by decide)).mpr apart _ _ _ _ e e' payload payload'
    k he he' hk hk') (by decide)

/-- A function of a deployed one shares its keys with the undeployed function that is called by both
names. -/
theorem dotted_name_shares_keys :
    ¬ ∀ (env env' : Environment) (function function' : String), function ≠ "" → function' ≠ "" →
      ∀ settings settings' hasCache hasCache' e e' payload payload' k,
        build env function settings hasCache = .ok e →
        build env' function' settings' hasCache' = .ok e' →
        e.rule.derive payload = .ok k → e'.rule.derive payload' = .ok k →
        Callable.named env function = Callable.named env' function' := by
  intro separate
  have hcharge : "charge" ≠ "" := by decide
  have hdotted : "orders.charge" ≠ "" := by decide
  have one : (Callable.named (deployedAs "orders") "charge").scope =
      (Callable.named undeployed "orders.charge").scope := by decide
  obtain ⟨e, e', he, he', hshared⟩ := initial_keys_shared hcharge hdotted one
  obtain ⟨k, hk, hk'⟩ := hshared (.string "A1")
  exact absurd (separate _ _ _ _ hcharge hdotted _ _ _ _ e e' _ _ k he he' hk hk') (by decide)

end Engine

/-! ### Taking keys apart -/

/-- The key is that of a scope and a digest in lower-case hexadecimal, and splits into just these
two. -/
structure Key.SplitsInto (k : Key) (scope digest : String) : Prop where
  composed : k = compose scope digest
  hexadecimal : ∀ c ∈ digest.toList, Text.IsHexDigit c
  scope_eq : k.scope = scope
  digest_eq : k.digest = digest

theorem Key.splitsInto_ofValue (scope : String) (h : HashFunction) (material : Json.Value) :
    (compose scope (h.ofValue material)).SplitsInto scope (h.ofValue material) where
  composed := rfl
  hexadecimal _ hc := HashFunction.isHexDigit_of_mem_hex hc
  scope_eq := scope_compose (HashFunction.separator_notMem_ofValue h material)
  digest_eq := digest_compose (HashFunction.separator_notMem_ofValue h material)

theorem Key.SplitsInto.eq_iff {k k' : Key} {scope scope' digest digest' : String}
    (h : k.SplitsInto scope digest) (h' : k'.SplitsInto scope' digest') :
    k = k' ↔ k.scope = k'.scope ∧ k.digest = k'.digest := by
  refine ⟨fun heq => heq ▸ ⟨rfl, rfl⟩, fun ⟨hscope, hdigest⟩ => ?_⟩
  rw [h.scope_eq, h'.scope_eq] at hscope
  rw [h.digest_eq, h'.digest_eq] at hdigest
  rw [h.composed, h'.composed, hscope, hdigest]

theorem KeyRule.splitsInto_derive {rule : KeyRule} {payload : Json.Value} {k : Key}
    (h : rule.derive payload = .ok k) :
    k.SplitsInto rule.scope (rule.hash.ofValue (rule.selector.search payload)) :=
  Engine.derive_eq h ▸ Key.splitsInto_ofValue _ _ _

/-- **A key splits back into the parts that it was made of.**  Whatever text the scope is, and
however many `#` it holds, the key of the scope and of the digest of a material splits into these
two.  So two keys that were derived, by two rules with two digest functions if need be, are equal
exactly if their scopes and their digests are. -/
theorem KeyRule.derived_keys_split :
    (∀ (scope : String) (h : HashFunction) (material : Json.Value),
      (Key.compose scope (h.ofValue material)).SplitsInto scope (h.ofValue material)) ∧
    ∀ (rule rule' : KeyRule) (payload payload' : Json.Value) (k k' : Key),
      rule.derive payload = .ok k → rule'.derive payload' = .ok k' →
      k.SplitsInto rule.scope (rule.hash.ofValue (rule.selector.search payload)) ∧
        k'.SplitsInto rule'.scope (rule'.hash.ofValue (rule'.selector.search payload')) ∧
        (k = k' ↔ k.scope = k'.scope ∧ k.digest = k'.digest) :=
  ⟨Key.splitsInto_ofValue, fun _ _ _ _ _ _ hk hk' =>
    ⟨splitsInto_derive hk, splitsInto_derive hk',
      (splitsInto_derive hk).eq_iff (splitsInto_derive hk')⟩⟩

/-- Of one payload under one scope, which holds a `#` and ends in another, two digest functions of
different sizes make two keys. -/
theorem KeyRule.derived_keys_split_sizes :
    let rule : KeyRule := ⟨"orders#eu#", .identity, .sha256, false⟩
    let rule' : KeyRule := ⟨"orders#eu#", .identity, .blake2b128, false⟩
    ∃ k k', rule.derive (.string "A#1") = .ok k ∧ rule'.derive (.string "A#1") = .ok k' ∧
      k.scope = "orders#eu#" ∧ k'.scope = "orders#eu#" ∧ k ≠ k' := by
  intro rule rule'
  have hk : rule.derive (.string "A#1") =
      .ok (Key.compose "orders#eu#" (HashFunction.sha256.ofValue (.string "A#1"))) := rfl
  have hk' : rule'.derive (.string "A#1") =
      .ok (Key.compose "orders#eu#" (HashFunction.blake2b128.ofValue (.string "A#1"))) := rfl
  obtain ⟨hsplit, hsplit', heq⟩ := derived_keys_split.2 rule rule' _ _ _ _ hk hk'
  refine ⟨_, _, hk, hk', hsplit.scope_eq, hsplit'.scope_eq, fun hsame => ?_⟩
  have hdigest := (heq.mp hsame).2
  rw [hsplit.digest_eq, hsplit'.digest_eq] at hdigest
  have hlength := congrArg String.length hdigest
  rw [HashFunction.length_ofValue, HashFunction.length_ofValue] at hlength
  exact absurd hlength (by decide)

end AtMostOnce
