/-
What a cache finds.

A cache is used by one call after the other, each at its own reading of the clock, which
may move either way in between.  At any time it may lose records, for want of room or for
another reason, so nothing is said about what it still holds.  What it does hold is tied
to the whole history (`Latest`): it is what was last accepted under its key, and no call
since then has ended its stay.  One call preserves that (`Use.mem_on`), and so does a
loss, which brings nothing.
-/
import AtMostOnce.Cache

namespace AtMostOnce.Cache

variable {c : Cache} {now : Seconds} {k : Key} {r : Record}

/-- The record that was found stays as the only one under its key. -/
theorem eq_of_mem_get {found : Record} (h : (c.get now k).1 = some found)
    (hr : r ∈ (c.get now k).2.records) (hk : r.key = k) : r = found := by
  obtain ⟨-, hkey⟩ := get_some h
  unfold get at h hr
  split at h
  · cases h
  · rename_i hsome
    rw [hsome] at hr
    dsimp only at hr
    split at h
    · cases h
    · rename_i hforce
      rw [if_neg hforce] at hr
      cases h
      rcases mem_push hr with rfl | ⟨-, hne⟩
      · rfl
      · exact absurd (hk.trans hkey.symm) hne

/-- A record that is not completed or has expired is not put. -/
theorem put_ignored (h : ¬ (r.status = .completed ∧ r.isExpired now = false)) :
    c.put now r = c := if_neg (by simpa using h)

/-- A call of a cache, with what the clock says then. -/
inductive Use where
  | put (now : Seconds) (r : Record)
  | get (now : Seconds) (key : Key)
  | delete (key : Key)
  deriving DecidableEq, Repr

namespace Use

/-- The cache after a call. -/
def on (c : Cache) : Use → Cache
  | put now r => c.put now r
  | get now key => (c.get now key).2
  | delete key => c.erase key

/-- Does the call put a record, which the cache accepts? -/
def Brings (r : Record) : Use → Prop
  | put now r' => r' = r ∧ r.status = .completed ∧ r.isExpired now = false
  | get _ _ => False
  | delete _ => False

/-- Does the call end the stay of a record?  It does if it puts one under the same key that is
accepted, if it meets the record expired, or if it deletes the key. -/
def Ends (r : Record) : Use → Prop
  | put now r' => r'.key = r.key ∧ r'.status = .completed ∧ r'.isExpired now = false
  | get now key => key = r.key ∧ r.isExpired now = true
  | delete key => key = r.key

/-- A record that is in the cache after a call was brought by it, or was there before and the call
has not ended its stay. -/
theorem mem_on {u : Use} (h : r ∈ (u.on c).records) :
    u.Brings r ∨ (r ∈ c.records ∧ ¬ u.Ends r) := by
  cases u with
  | put now r' =>
    change r ∈ (c.put now r').records at h
    by_cases hput : r'.status = .completed ∧ r'.isExpired now = false
    · rw [put_eq hput.1 hput.2] at h
      rcases mem_push h with rfl | ⟨hmem, hkey⟩
      · exact .inl ⟨rfl, hput⟩
      · exact .inr ⟨hmem, fun hends => hkey hends.1.symm⟩
    · rw [put_ignored hput] at h
      exact .inr ⟨h, fun hends => hput hends.2⟩
  | get now key =>
    refine .inr ⟨mem_get h, fun ⟨hkey, hexpired⟩ => ?_⟩
    cases hfound : (c.get now key).1 with
    | none => exact key_of_get_none hfound h hkey.symm
    | some found =>
      obtain rfl := eq_of_mem_get hfound h hkey.symm
      rw [get_unexpired hfound] at hexpired
      cases hexpired
  | delete key => exact .inr ⟨mem_erase h, fun hkey => key_of_mem_erase h hkey.symm⟩

end Use

/-- What a cache can hold after some calls.  Whenever it loses records it keeps some of those that
it had, in whatever order; the capacity has no part in that, so that a cache may also be late in
making room. -/
inductive After (capacity : Nat) : List Use → Cache → Prop
  | fresh : After capacity [] (empty capacity)
  | use {uses : List Use} {c : Cache} (h : After capacity uses c) (u : Use) :
    After capacity (uses ++ [u]) (u.on c)
  | loss {uses : List Use} {c c' : Cache} (h : After capacity uses c)
    (kept : ∀ r ∈ c'.records, r ∈ c.records) : After capacity uses c'

/-- The record is the one that was last accepted under its key, and nothing has ended its stay since
then. -/
def Latest (r : Record) (uses : List Use) : Prop :=
  ∃ before u after, uses = before ++ u :: after ∧ u.Brings r ∧ ∀ u' ∈ after, ¬ u'.Ends r

theorem latest_of_brings {u : Use} (h : u.Brings r) (uses : List Use) :
    Latest r (uses ++ [u]) := ⟨uses, u, [], rfl, h, nofun⟩

theorem Latest.use {uses : List Use} (h : Latest r uses) {u : Use} (hu : ¬ u.Ends r) :
    Latest r (uses ++ [u]) := by
  obtain ⟨before, v, after, rfl, hbrings, hafter⟩ := h
  refine ⟨before, v, after ++ [u], by simp, hbrings, fun u' hmem => ?_⟩
  rcases List.mem_append.mp hmem with hmem | hmem
  · exact hafter u' hmem
  · rw [List.mem_singleton.mp hmem]
    exact hu

/-- Whatever is in a cache was last accepted under its key. -/
theorem After.latest {capacity : Nat} {uses : List Use} (h : After capacity uses c) :
    ∀ r ∈ c.records, Latest r uses := by
  induction h with
  | fresh => exact nofun
  | use _ u ih =>
    intro r hr
    rcases Use.mem_on hr with hbrings | ⟨hmem, hends⟩
    · exact latest_of_brings hbrings _
    · exact (ih r hmem).use hends
  | loss _ kept ih => exact fun r hr => ih r (kept r hr)

/-- **A cache finds only what was last put and still counts.**  After any calls at any readings of
the clock, and whatever records the cache has lost in between, a record that it finds under a key is
a completed one of that key, and not expired.  It is the record of the last put under the key that
was accepted; since then the key was not deleted, and never looked up when the record was
expired. -/
theorem get_sound {capacity : Nat} {uses : List Use} (h : After capacity uses c)
    (hget : (c.get now k).1 = some r) :
    r.key = k ∧ r.status = .completed ∧ r.isExpired now = false ∧
      ∃ before t after, uses = before ++ .put t r :: after ∧ r.isExpired t = false ∧
        (∀ t' r', Use.put t' r' ∈ after → r'.key = k → r'.status = .completed →
          r'.isExpired t' = true) ∧
        Use.delete k ∉ after ∧
        ∀ t', Use.get t' k ∈ after → r.isExpired t' = false := by
  obtain ⟨hmem, rfl⟩ := get_some hget
  obtain ⟨before, u, after, huses, hbrings, hafter⟩ := h.latest r hmem
  cases u with
  | get t key => exact hbrings.elim
  | delete key => exact hbrings.elim
  | put t r' =>
    obtain ⟨rfl, hstatus, hforce⟩ := hbrings
    refine ⟨rfl, hstatus, get_unexpired hget, before, t, after, huses, hforce, ?_, ?_, ?_⟩
    · exact fun t' r'' hput hkey hst =>
        Bool.of_not_eq_false fun hforce => hafter _ hput ⟨hkey, hst, hforce⟩
    · exact fun hdelete => hafter _ hdelete rfl
    · exact fun t' hlooked =>
        Bool.of_not_eq_true fun hexpired => hafter _ hlooked ⟨rfl, hexpired⟩

/-- A cache with room for one record, whose clock is set back after the put: an in-progress record
and an expired one under the same key change nothing. -/
theorem get_sound_set_back :
    let done : Record := ⟨⟨"order"⟩, .completed, some 5, none, some "1", none⟩
    let uses : List Use := [.put 4 done, .get 5 ⟨"order"⟩,
      .put 3 { done with status := .inProgress }, .put 7 { done with data := some "2" }]
    ∃ before t after, uses = before ++ .put t done :: after ∧ done.isExpired t = false ∧
      (∀ t' r', Use.put t' r' ∈ after → r'.key = ⟨"order"⟩ → r'.status = .completed →
        r'.isExpired t' = true) ∧
      Use.delete ⟨"order"⟩ ∉ after ∧
      ∀ t', Use.get t' ⟨"order"⟩ ∈ after → done.isExpired t' = false := by
  intro done uses
  have h : After 1 uses (uses.foldl Use.on (empty 1)) :=
    .use (.use (.use (.use .fresh _) _) _) _
  have hget : ((uses.foldl Use.on (empty 1)).get 2 ⟨"order"⟩).1 = some done := by decide
  exact (get_sound h hget).2.2.2

end AtMostOnce.Cache
