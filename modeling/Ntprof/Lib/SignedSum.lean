import Mathlib.Data.BitVec
import Mathlib.Algebra.Order.BigOperators.Group.List
import Mathlib.Tactic.Linarith

/-!
# Signed sums of machine words

Words are added modulo `2 ^ w`. `AtMost k x` bounds the signed value of a word; the bounds of the
summands add up, whether the sum wraps or not, and an identity of words whose bounds together stay
below `2 ^ w` is one of integers.
-/

namespace Ntprof.SignedSum

variable {w : Nat}

/-- The signed value of the word is at most `k`, up to its sign. -/
def AtMost (k : Nat) (x : BitVec w) : Prop := x.toInt.natAbs ≤ k

theorem AtMost.zero (k : Nat) : AtMost k (0 : BitVec w) := by
  simp [AtMost]

theorem AtMost.mono {j k : Nat} {x : BitVec w} (hx : AtMost j x) (hjk : j ≤ k) : AtMost k x :=
  Nat.le_trans hx hjk

theorem natAbs_bmod_le (z : Int) (m : Nat) : (z.bmod m).natAbs ≤ z.natAbs := by
  rcases Nat.eq_zero_or_pos m with rfl | hm
  · simp [Int.bmod]
  · have h1 := Int.emod_nonneg z (by omega : (m : Int) ≠ 0)
    have h2 := Int.emod_lt_of_pos z (by omega : (0 : Int) < m)
    by_cases hz : 0 ≤ z
    · have h3 : z % m ≤ z := by
        have hq := Int.mul_ediv_add_emod z m
        have hn := Int.mul_nonneg (by omega : (0 : Int) ≤ m) (Int.ediv_nonneg hz (by omega : (0 : Int) ≤ m))
        omega
      rw [Int.bmod_def]
      split_ifs <;> omega
    · -- a negative value: the remainder is at least `z + m`
      have h3 : z + m ≤ z % m := by
        have hd : z / m ≤ -1 := by
          have := Int.ediv_neg_of_neg_of_pos (by omega : z < 0) (by omega : (0 : Int) < m)
          omega
        have hq := Int.mul_ediv_add_emod z m
        nlinarith
      rw [Int.bmod_def]
      split_ifs <;> omega

theorem AtMost.add {j k : Nat} {x y : BitVec w} (hx : AtMost j x) (hy : AtMost k y) :
    AtMost (j + k) (x + y) := by
  have h := natAbs_bmod_le (x.toInt + y.toInt) (2 ^ w)
  unfold AtMost at *
  rw [BitVec.toInt_add]
  omega

theorem AtMost.sub {j k : Nat} {x y : BitVec w} (hx : AtMost j x) (hy : AtMost k y) :
    AtMost (j + k) (x - y) := by
  have h := natAbs_bmod_le (x.toInt - y.toInt) (2 ^ w)
  unfold AtMost at *
  rw [BitVec.toInt_sub]
  omega

/-- The difference of two words that are small as unsigned numbers. -/
theorem AtMost.diff {k : Nat} {x y : BitVec w} (hw : 2 * k ≤ 2 ^ w) (hx : x.toNat < k)
    (hy : y.toNat < k) : AtMost k (x - y) := by
  have h1 : x.toInt = x.toNat := BitVec.toInt_eq_toNat_of_lt (by omega)
  have h2 : y.toInt = y.toNat := BitVec.toInt_eq_toNat_of_lt (by omega)
  have h := natAbs_bmod_le (x.toInt - y.toInt) (2 ^ w)
  unfold AtMost
  rw [BitVec.toInt_sub]
  omega

/-- The sum of words is the sum of their signed values, as a word. -/
theorem ofInt_sum (l : List (BitVec w)) : BitVec.ofInt w (l.map BitVec.toInt).sum = l.sum := by
  induction l with
  | nil => rfl
  | cons x l ih => rw [List.map_cons, List.sum_cons, List.sum_cons, BitVec.ofInt_add, ih, BitVec.ofInt_toInt]

theorem natAbs_sum_le (l : List (BitVec w)) :
    (l.map BitVec.toInt).sum.natAbs ≤ (l.map fun x => x.toInt.natAbs).sum := by
  induction l with
  | nil => rfl
  | cons x l ih =>
    simp only [List.map_cons, List.sum_cons]
    omega

/-- An identity of words whose signed values stay below `2 ^ w` together is one of integers. -/
theorem sum_toInt_eq {l : List (BitVec w)} {e : BitVec w} (he : l.sum = e) {k : Nat}
    (hl : (l.map fun x => x.toInt.natAbs).sum + e.toInt.natAbs ≤ k) (hk : k < 2 ^ w) :
    (l.map BitVec.toInt).sum = e.toInt := by
  have h1 : BitVec.ofInt w (l.map BitVec.toInt).sum = BitVec.ofInt w e.toInt := by
    rw [ofInt_sum, he, BitVec.ofInt_toInt]
  have h2 : ((2 ^ w : Nat) : Int) ∣ (l.map BitVec.toInt).sum - e.toInt := by
    have h3 := congrArg BitVec.toInt h1
    rw [BitVec.toInt_ofInt, BitVec.toInt_ofInt] at h3
    exact Int.dvd_of_bmod_eq_zero (Int.bmod_eq_bmod_iff_bmod_sub_eq_zero.1 h3)
  have h4 := natAbs_sum_le l
  have h5 : ((l.map BitVec.toInt).sum - e.toInt).natAbs < 2 ^ w := by omega
  have h6 := Int.eq_zero_of_abs_lt_dvd h2 (by rw [Int.abs_eq_natAbs]; exact_mod_cast h5)
  omega

/-- The number is the signed value of a word of 64 bits. -/
def SignedWord (z : Int) : Prop := -2 ^ 63 ≤ z ∧ z < 2 ^ 63

instance decidableSignedWord (z : Int) : Decidable (SignedWord z) := inferInstanceAs (Decidable (_ ∧ _))

/-- An identity of words is one of integers if the integers add up to the signed value of a word. -/
theorem sum_toInt_of_signedWord {l : List (BitVec 64)} {e : BitVec 64} (he : l.sum = e)
    (hl : SignedWord (l.map BitVec.toInt).sum) : (l.map BitVec.toInt).sum = e.toInt := by
  rw [← he, ← ofInt_sum, BitVec.toInt_ofInt_eq_self (by omega) hl.1 hl.2]

end Ntprof.SignedSum
