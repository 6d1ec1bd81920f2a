import Mathlib.Data.BitVec
import Mathlib.Data.Int.CardIntervalMod
import Mathlib.Data.Set.Card

/-!
# Mixing the bits of a word

The steps of a hash finaliser: a word is combined with itself shifted down, or multiplied by a constant. Both
are bijections on the words of a width, the second one if the constant has an inverse. A bijection does not
change how many words have a value that a period divides.
-/

namespace WordMix

variable {w : ℕ}

instance finiteWords : Finite (BitVec w) := Finite.of_equiv _ BitVec.equivFin.symm.toEquiv

/-- A word combined with itself shifted down. -/
def xorShift (k : ℕ) (x : BitVec w) : BitVec w := x ^^^ (x >>> k)

/-- Only the word 0 is itself shifted down. -/
theorem eq_zero_of_shift {k : ℕ} (hk : 0 < k) {d : BitVec w} (h : d >>> k = d) : d = 0 := by
  have hnat : d.toNat / 2 ^ k = d.toNat := by
    rw [← Nat.shiftRight_eq_div_pow, ← BitVec.toNat_ushiftRight, h]
  have hone : 1 < 2 ^ k := Nat.one_lt_two_pow (Nat.pos_iff_ne_zero.mp hk)
  rcases Nat.eq_zero_or_pos d.toNat with h0 | hpos
  · exact BitVec.eq_of_toNat_eq h0
  · exact absurd hnat (Nat.div_lt_self hpos hone).ne

theorem xorShift_injective {k : ℕ} (hk : 0 < k) : Function.Injective (xorShift k : BitVec w → BitVec w) := by
  intro x y h
  -- what differs between the two words survives the shift
  have hd : (x ^^^ y) >>> k = x ^^^ y := by
    rw [BitVec.ushiftRight_xor_distrib]
    unfold xorShift at h
    have hx : x >>> k = x ^^^ (y ^^^ y >>> k) := by rw [← h, ← BitVec.xor_assoc, BitVec.xor_self, BitVec.zero_xor]
    rw [hx, BitVec.xor_assoc, BitVec.xor_assoc, BitVec.xor_self, BitVec.xor_zero]
  exact BitVec.xor_eq_zero_iff.mp (eq_zero_of_shift hk hd)

theorem mul_injective {a b : BitVec w} (hab : a * b = 1#w) : Function.Injective fun x : BitVec w => x * a := by
  intro x y h
  have h' : x * a * b = y * a * b := congrArg (· * b) h
  rwa [BitVec.mul_assoc, BitVec.mul_assoc, hab, BitVec.mul_one, BitVec.mul_one] at h'

theorem bijective_of_injective {f : BitVec w → BitVec w} (hf : Function.Injective f) : Function.Bijective f :=
  Finite.injective_iff_bijective.mp hf

/-- The number of words that a period divides. -/
theorem ncard_mod_eq_zero (w : ℕ) {n : ℕ} (hn : 0 < n) :
    {x : BitVec w | x.toNat % n = 0}.ncard = ⌈(2 ^ w : ℚ) / n⌉₊ := by
  have himage : BitVec.toNat '' {x : BitVec w | x.toNat % n = 0} =
      ((Finset.range (2 ^ w)).filter fun m => m ≡ 0 [MOD n] : Finset ℕ) := by
    ext m
    simp only [Set.mem_image, Set.mem_ofPred_eq, Finset.coe_filter, Finset.mem_range]
    constructor
    · rintro ⟨x, hx, rfl⟩
      exact ⟨x.isLt, by rwa [Nat.ModEq, Nat.zero_mod]⟩
    · rintro ⟨hm, hmod⟩
      have hto : (BitVec.ofNat w m).toNat = m := by rw [BitVec.toNat_ofNat, Nat.mod_eq_of_lt hm]
      refine ⟨BitVec.ofNat w m, ?_, hto⟩
      rw [hto]
      rwa [Nat.ModEq, Nat.zero_mod] at hmod
  have hcount := Nat.count_modEq_card_eq_ceil (b := 2 ^ w) hn 0
  rw [Nat.zero_mod, Nat.cast_zero, sub_zero, Nat.cast_pow, Nat.cast_ofNat] at hcount
  have hceil : ((⌈(2 ^ w : ℚ) / n⌉₊ : ℕ) : ℤ) = ⌈(2 ^ w : ℚ) / n⌉ := Int.natCast_ceil_eq_ceil (by positivity)
  rw [← hceil, Nat.cast_inj] at hcount
  rw [← Set.ncard_image_of_injective _ BitVec.toNat_injective, himage, Set.ncard_coe_finset, ← hcount,
    Nat.count_eq_card_filter_range]

/-- As many words are taken by a bijection to a multiple of a period as are one. -/
theorem ncard_preimage {f : BitVec w → BitVec w} (hf : Function.Bijective f) (s : Set (BitVec w)) :
    {x | f x ∈ s}.ncard = s.ncard := by
  have himage : f '' {x | f x ∈ s} = s := Set.image_preimage_eq s hf.surjective
  rw [← Set.ncard_image_of_injective _ hf.injective, himage]

end WordMix
