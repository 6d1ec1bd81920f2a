import Mathlib.Tactic.Common

/-!
# Time measured inside a span

A worker adds up the periods it worked in, on a clock of `w` bits. As long as each period starts no
earlier than the last one ended, their sum fits into the span from the start of the first to the end of
the last.
-/

namespace MeasuredSpan

variable {w : ℕ}

/-- The time `busy` fits into the span from `start` to `done`. -/
structure Fits (start done busy : BitVec w) : Prop where
  le : start ≤ done
  busy : busy ≤ done - start

variable {start done busy t u : BitVec w}

/-- One period, somewhere after the start. -/
theorem fits_first (hst : start ≤ t) (htu : t ≤ u) : Fits start u (u - t) := by
  have hsu : start ≤ u := BitVec.le_trans hst htu
  refine ⟨hsu, ?_⟩
  rw [BitVec.le_def, BitVec.toNat_sub_of_le htu, BitVec.toNat_sub_of_le hsu]
  rw [BitVec.le_def] at hst
  omega

/-- Another period, after the last one. -/
theorem Fits.add (h : Fits start done busy) (hdt : done ≤ t) (htu : t ≤ u) : Fits start u (busy + (u - t)) := by
  have hsu : start ≤ u := BitVec.le_trans h.le (BitVec.le_trans hdt htu)
  have hbusy := h.busy
  have hle := h.le
  refine ⟨hsu, ?_⟩
  rw [BitVec.le_def, BitVec.toNat_sub_of_le hle] at hbusy
  rw [BitVec.le_def, BitVec.toNat_add, BitVec.toNat_sub_of_le htu, BitVec.toNat_sub_of_le hsu]
  rw [BitVec.le_def] at hle hdt htu
  have hu : u.toNat < 2 ^ w := u.isLt
  rw [Nat.mod_eq_of_lt (by omega)]
  omega

end MeasuredSpan
