/-
Arithmetic that stays in range.

A sum that does not leave the range is not wrapped, so a time to live that fits can be
added to the clock and read back from it.  Whatever time to live the server shows, the
second that it stands for is not over yet.
-/
import AtMostOnce.FieldStore.Memory

namespace AtMostOnce

namespace Word

theorem wrap_eq {n : Int} (h : InRange n) : wrap n = n := by
  unfold InRange least greatest at h
  unfold wrap
  rw [Int.bmod_def]
  omega

theorem wrap_inRange (n : Int) : InRange (wrap n) := by
  unfold InRange least greatest wrap
  rw [Int.bmod_def]
  omega

theorem clamp_inRange (n : Int) : InRange (clamp n) := by
  unfold InRange clamp least greatest
  omega

theorem wrap_le {n : Int} (h : least ≤ n) : wrap n ≤ n := by
  unfold least at h
  unfold wrap
  rw [Int.bmod_def]
  omega

theorem wrap_add_wrap (m n : Int) : wrap (m + wrap n) = wrap (m + n) := Int.add_bmod_bmod

end Word

namespace FieldStore.Memory

variable {now ttl : Int}

/-- The end of so many seconds can be told on the clock. -/
def Fits (now : Millis) (ttl : Int) : Prop :=
  Word.InRange (ttl * 1000) ∧ Word.InRange (now + ttl * 1000)

theorem ahead_eq (h : Fits now ttl) : ahead now ttl = now + ttl * 1000 := by
  rw [ahead_wrap, Word.wrap_add_wrap, Word.wrap_eq h.2]

theorem lt_ahead (h : Fits now ttl) (hpos : 0 < ttl) : now < ahead now ttl := by
  rw [ahead_eq h]
  omega

theorem secondsUntil_ahead (h : Fits now ttl) (hpos : 0 < ttl) :
    secondsUntil now (ahead now ttl) = ttl := by
  have hrange := h.1
  rw [ahead_eq h, secondsUntil_wrap, show now + ttl * 1000 - now = ttl * 1000 by omega,
    Word.wrap_eq hrange]
  unfold Word.InRange Word.least Word.greatest at hrange
  rw [Word.wrap_eq (by unfold Word.InRange Word.least Word.greatest; omega),
    Int.tdiv_eq_ediv_of_nonneg (by omega)]
  omega

/-- A key is to be dropped in the second after `expiry`.  While it is there, the seconds that it has
left, counted from now, come out at that second or next to it, and not before the present one. -/
theorem secondsUntil_shown {expiry part : Int} (hpart : 0 ≤ part ∧ part < 1000)
    (hrange : Word.InRange (expiry * 1000 + part)) (hlive : now < expiry * 1000 + part)
    (hsoon : expiry * 1000 + part - now ≤ 9223372036854775000) :
    0 ≤ secondsUntil now (expiry * 1000 + part) ∧
      ∃ shown, Word.wrap (secondsOf now + secondsUntil now (expiry * 1000 + part)) = shown ∧
        secondsOf now ≤ shown ∧ shown ≤ expiry + 1 ∧ expiry ≤ shown + 1 := by
  have hseconds : secondsUntil now (expiry * 1000 + part) =
      (expiry * 1000 + part - now + 500) / 1000 := by
    rw [secondsUntil_wrap, Word.wrap_eq (n := expiry * 1000 + part - now)
        (by unfold Word.InRange Word.least Word.greatest; omega),
      Word.wrap_eq (by unfold Word.InRange Word.least Word.greatest; omega),
      Int.tdiv_eq_ediv_of_nonneg (by omega)]
  unfold Word.InRange Word.least Word.greatest at hrange
  refine ⟨by omega, _, rfl, ?_⟩
  unfold secondsOf
  rw [hseconds, Word.wrap_eq (by unfold Word.InRange Word.least Word.greatest; omega)]
  refine ⟨?_, by omega⟩
  show now / 1000 ≤ now / 1000 + (expiry * 1000 + part - now + 500) / 1000
  omega

theorem Fits.max_wrap (h : Fits now ttl) (hpos : 0 < ttl) : max 1 (Word.wrap ttl) = ttl := by
  have hrange := h.1
  unfold Word.InRange Word.least Word.greatest at hrange
  rw [Word.wrap_eq (by unfold Word.InRange Word.least Word.greatest; omega)]
  omega

theorem Fits.min (h : Fits now ttl) (hnow : Word.InRange now) {limit : Int} (hlimit : 0 < limit)
    (hpos : 0 < ttl) : Fits now (Min.min ttl limit) := by
  obtain ⟨hrange, hsum⟩ := h
  unfold Word.InRange Word.least Word.greatest at hnow hrange hsum
  refine ⟨?_, ?_⟩
  · unfold Word.InRange Word.least Word.greatest
    omega
  · unfold Word.InRange Word.least Word.greatest
    omega

/-- A time to live that is shown is a number of seconds that was counted in milliseconds. -/
theorem ttl_within (m : Memory) (now : Millis) (key : String) :
    -9223372036854775 ≤ m.ttl now key ∧ m.ttl now key ≤ 9223372036854775 := by
  rw [ttl_eq]
  split
  · decide
  · decide
  · rename_i t ht
    obtain ⟨hleast, hgreatest⟩ := Word.wrap_inRange (Word.wrap (t - now) + 500)
    exact ⟨Int.le_trans (by decide) (Int.tdiv_le_tdiv (by decide) hleast),
      Int.le_trans (Int.tdiv_le_tdiv (by decide) hgreatest) (by decide)⟩

/-- A record does not expire before the second that its time to live shows. -/
theorem secondsOf_le_add_ttl (h : Word.InRange now) (m : Memory) (key : String)
    (hfinite : 0 ≤ m.ttl now key) :
    secondsOf now ≤ Word.wrap (secondsOf now + m.ttl now key) := by
  have hbound := (m.ttl_within now key).2
  generalize m.ttl now key = ttl at hfinite hbound
  unfold Word.InRange Word.least Word.greatest at h
  unfold secondsOf
  rw [Word.wrap_eq (by unfold Word.InRange Word.least Word.greatest; omega)]
  exact Int.le_add_of_nonneg_right hfinite

end FieldStore.Memory

end AtMostOnce
