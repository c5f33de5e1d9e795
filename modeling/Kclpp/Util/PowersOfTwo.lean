import Mathlib

/-!
# The next power of two, by its bits

Or-ing a number with itself shifted to the right spreads its bits downwards.
`Spread n x y` says that a bit of `y` is set exactly when one of the `n` bits from
there upwards is set in `x`; each such step doubles `n`. When `n` is the width of the
word, the highest bit has reached all below it, and `y + 1` is a power of two.
-/

namespace PowersOfTwo

/-- A bit of `y` is set when one of the next `n` bits of `x` is. -/
def Spread (n x y : ℕ) : Prop :=
  ∀ j, y.testBit j = true ↔ ∃ k < n, x.testBit (j + k) = true

theorem spread_one (x : ℕ) : Spread 1 x x := by
  intro j
  constructor
  · exact fun h => ⟨0, Nat.one_pos, h⟩
  · rintro ⟨k, hk, h⟩
    rwa [Nat.lt_one_iff.mp hk] at h

theorem Spread.or_shiftRight {n x y : ℕ} (h : Spread n x y) :
    Spread (n + n) x (y ||| y >>> n) := by
  intro j
  rw [Nat.testBit_or, Nat.testBit_shiftRight, Bool.or_eq_true, h j, h (n + j)]
  constructor
  · rintro (⟨k, hk, hbit⟩ | ⟨k, hk, hbit⟩)
    · exact ⟨k, by omega, hbit⟩
    · refine ⟨n + k, by omega, ?_⟩
      rwa [show j + (n + k) = n + j + k by omega]
  · rintro ⟨k, hk, hbit⟩
    by_cases hlt : k < n
    · exact .inl ⟨k, hlt, hbit⟩
    · refine .inr ⟨k - n, by omega, ?_⟩
      rwa [show n + j + (k - n) = j + k by omega]

/-- Spread over the whole width, every bit below the highest one is set. -/
theorem Spread.eq_two_pow_size_sub_one {n x y : ℕ} (h : Spread n x y)
    (hx : x < 2 ^ n) : y = 2 ^ x.size - 1 := by
  refine Nat.eq_of_testBit_eq fun j => ?_
  rw [Bool.eq_iff_iff, h j, Nat.testBit_two_pow_sub_one, decide_eq_true_iff]
  constructor
  · rintro ⟨k, -, hbit⟩
    by_contra hle
    have hsmall : x < 2 ^ (j + k) := Nat.size_le.mp (by omega)
    rw [Nat.testBit_eq_false_of_lt hsmall] at hbit
    exact absurd hbit Bool.false_ne_true
  · intro hlt
    have hpos : x ≠ 0 := by
      rintro rfl
      rw [Nat.size_zero] at hlt
      exact absurd hlt (Nat.not_lt_zero j)
    have hlog : x.size = x.log2 + 1 := by
      refine le_antisymm (Nat.size_le.mpr Nat.lt_log2_self) ?_
      exact Nat.lt_size.mpr (Nat.log2_self_le hpos)
    have hwidth : x.size ≤ n := Nat.size_le.mpr hx
    refine ⟨x.log2 - j, by omega, ?_⟩
    rw [Nat.add_sub_cancel' (by omega)]
    exact Nat.testBit_log2 hpos

end PowersOfTwo
