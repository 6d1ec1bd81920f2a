import Mathlib.Data.Nat.Bitwise
import Mathlib.Data.List.Basic

/-!
# Sets of small numbers in words

A set of numbers below `64 * n` is kept in `n` words of 64 bits: the number `k` is the bit `k % 64` of the word
`k / 64`.
-/

namespace WordSet

variable {n : ℕ}

/-- The bit of a number in its word. -/
def bit (k : ℕ) : BitVec 64 := 1#64 <<< (k % 64)

/-- The number is in the set. -/
def contains (s : Vector (BitVec 64) n) (k : ℕ) : Bool := (s[k / 64]?.getD 0 &&& bit k) != 0

/-- The set with one more number. -/
def insert (s : Vector (BitVec 64) n) (k : ℕ) : Vector (BitVec 64) n :=
  s.setIfInBounds (k / 64) (s[k / 64]?.getD 0 ||| bit k)

theorem and_bit_ne_zero (x : BitVec 64) (k : ℕ) : (x &&& bit k) ≠ 0 ↔ x.getLsbD (k % 64) = true := by
  have hlt : k % 64 < 64 := Nat.mod_lt _ (by omega)
  rw [bit, ← BitVec.twoPow_eq, BitVec.and_twoPow]
  by_cases hbit : x.getLsbD (k % 64) = true
  · rw [if_pos hbit]
    refine ⟨fun _ => hbit, fun _ hzero => ?_⟩
    have hset := congrArg (fun y : BitVec 64 => y.getLsbD (k % 64)) hzero
    simp [hlt] at hset
  · rw [if_neg hbit]
    exact ⟨fun h => absurd rfl h, fun h => absurd h hbit⟩

theorem contains_iff (s : Vector (BitVec 64) n) (k : ℕ) :
    contains s k = true ↔ (s[k / 64]?.getD 0).getLsbD (k % 64) = true := by
  rw [contains, bne_iff_ne, and_bit_ne_zero]

theorem getLsbD_or_bit (x : BitVec 64) (k i : ℕ) :
    (x ||| bit k).getLsbD (i % 64) = (x.getLsbD (i % 64) || decide (i % 64 = k % 64)) := by
  have hlt : k % 64 < 64 := Nat.mod_lt _ (by omega)
  rw [BitVec.getLsbD_or, bit, ← BitVec.twoPow_eq, BitVec.getLsbD_twoPow]
  simp [hlt, eq_comm]

theorem contains_empty (k : ℕ) : contains (Vector.replicate n 0) k = false := by
  rw [← Bool.not_eq_true, contains_iff, Vector.getElem?_replicate]
  split_ifs <;> simp

/-- A set with one more number. -/
theorem contains_insert {s : Vector (BitVec 64) n} {k : ℕ} (hk : k < 64 * n) (i : ℕ) :
    contains (insert s k) i = true ↔ i = k ∨ contains s i = true := by
  have hword : k / 64 < n := Nat.div_lt_of_lt_mul hk
  rw [contains_iff, contains_iff, insert]
  by_cases hsame : k / 64 = i / 64
  · rw [hsame, Vector.getElem?_setIfInBounds_self_of_lt (by omega), Option.getD_some, getLsbD_or_bit, Bool.or_eq_true,
      decide_eq_true_eq]
    constructor
    · rintro (h | h)
      · exact Or.inr h
      · exact Or.inl (by omega)
    · rintro (rfl | h)
      · exact Or.inr rfl
      · exact Or.inl h
  · rw [Vector.getElem?_setIfInBounds_ne hsame]
    constructor
    · exact Or.inr
    · rintro (rfl | h)
      · exact absurd rfl hsame
      · exact h

end WordSet
