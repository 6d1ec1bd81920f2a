import Mathlib.Algebra.Order.Round
import Mathlib.Algebra.Order.Floor.Semiring
import Mathlib.Data.Int.ConditionallyCompleteOrder
import Mathlib.Tactic.Linarith

/-!
# Linear interpolation in a sequence of integers

A sequence of integers is read between its positions by linear interpolation. For a monotone sequence the
interpolation is monotone too, it lies between the two neighbours, and rounding to the nearest integer keeps both.
-/

namespace Interpolation

variable {K : Type*} [Field K] [LinearOrder K] [IsStrictOrderedRing K] [FloorRing K]

/-- A sequence at the position `x`, interpolated between the positions around it. -/
def lerp (a : ℕ → ℤ) (x : K) : K := a ⌊x⌋₊ + ((a (⌊x⌋₊ + 1) - a ⌊x⌋₊ : ℤ) : K) * (x - (⌊x⌋₊ : K))

variable {a : ℕ → ℤ} {x y : K}

theorem lerp_natCast (a : ℕ → ℤ) (n : ℕ) : lerp a (n : K) = a n := by
  rw [lerp, Nat.floor_natCast, sub_self, mul_zero, add_zero]

theorem gap_nonneg (ha : Monotone a) (i : ℕ) : (0 : K) ≤ ((a (i + 1) - a i : ℤ) : K) :=
  Int.cast_nonneg (sub_nonneg.mpr (ha (Nat.le_succ i)))

theorem le_lerp (ha : Monotone a) (hx : 0 ≤ x) : (a ⌊x⌋₊ : K) ≤ lerp a x :=
  le_add_of_nonneg_right (mul_nonneg (gap_nonneg ha _) (sub_nonneg.mpr (Nat.floor_le hx)))

theorem lerp_le_succ (ha : Monotone a) (x : K) : lerp a x ≤ a (⌊x⌋₊ + 1) := by
  have hfrac : x - (⌊x⌋₊ : K) ≤ 1 := by
    have := Nat.lt_floor_add_one x
    linarith
  have hmul := mul_le_mul_of_nonneg_left hfrac (gap_nonneg (K := K) ha ⌊x⌋₊)
  rw [mul_one] at hmul
  calc lerp a x ≤ a ⌊x⌋₊ + ((a (⌊x⌋₊ + 1) - a ⌊x⌋₊ : ℤ) : K) := by
        unfold lerp
        linarith
    _ = a (⌊x⌋₊ + 1) := by
        rw [Int.cast_sub, add_sub_cancel]

omit [IsStrictOrderedRing K] in
/-- A position that is not whole has one position above it. -/
theorem ceil_cases (hx : 0 ≤ x) : x = (⌊x⌋₊ : K) ∨ ⌈x⌉₊ = ⌊x⌋₊ + 1 := by
  rcases (Nat.floor_le hx).eq_or_lt with heq | hlt
  · exact .inl heq.symm
  · right
    have hle := Nat.ceil_le_floor_add_one x
    have hceil : ⌊x⌋₊ < ⌈x⌉₊ := Nat.lt_ceil.mpr hlt
    omega

theorem lerp_le (ha : Monotone a) (hx : 0 ≤ x) : lerp a x ≤ a ⌈x⌉₊ := by
  rcases ceil_cases hx with hwhole | hceil
  · rw [hwhole, lerp_natCast, Nat.ceil_natCast]
  · rw [hceil]
    exact lerp_le_succ ha x

/-- The interpolation is monotone, also from one gap to another. -/
theorem lerp_mono (ha : Monotone a) (hx : 0 ≤ x) (hxy : x ≤ y) : lerp a x ≤ lerp a y := by
  have hy : 0 ≤ y := hx.trans hxy
  rcases (Nat.floor_mono hxy).eq_or_lt with heq | hlt
  · have hmul := mul_le_mul_of_nonneg_left (sub_le_sub_right hxy (⌊y⌋₊ : K)) (gap_nonneg ha ⌊y⌋₊)
    rw [lerp, lerp, heq]
    linarith
  · have hstep : a (⌊x⌋₊ + 1) ≤ a ⌊y⌋₊ := ha hlt
    calc lerp a x ≤ a (⌊x⌋₊ + 1) := lerp_le_succ ha x
      _ ≤ a ⌊y⌋₊ := Int.cast_le.mpr hstep
      _ ≤ lerp a y := le_lerp ha hy

/-! ## Rounding -/

theorem round_mono (h : x ≤ y) : round x ≤ round y := by
  rw [round_eq, round_eq]
  exact Int.floor_mono (by linarith)

theorem le_round_lerp (ha : Monotone a) (hx : 0 ≤ x) : a ⌊x⌋₊ ≤ round (lerp a x) := by
  have h := round_mono (le_lerp ha hx)
  rwa [round_intCast] at h

theorem round_lerp_le (ha : Monotone a) (hx : 0 ≤ x) : round (lerp a x) ≤ a ⌈x⌉₊ := by
  have h := round_mono (lerp_le ha hx)
  rwa [round_intCast] at h

omit [IsStrictOrderedRing K] in
/-- The interpolation in terms of the two neighbours. -/
theorem lerp_eq (a : ℕ → ℤ) (hx : 0 ≤ x) :
    lerp a x = a ⌊x⌋₊ + ((a ⌈x⌉₊ - a ⌊x⌋₊ : ℤ) : K) * (x - (⌊x⌋₊ : K)) := by
  rcases ceil_cases hx with hwhole | hceil
  · rw [lerp, sub_eq_zero.mpr hwhole, mul_zero, mul_zero]
  · rw [lerp, hceil]

end Interpolation
