import Ntprof.Bpf.Common
import Ntprof.Lib.WordMix

/-!
# The sampling hash

Both sides of a run sample the commands whose hash is a multiple of the period. The hash mixes one word made of
the three fields by bijections, so commands differ in their hash whenever they differ in that word.
-/

namespace Ntprof.Bpf

open WordMix

/-- The word that `ntp_sample_hash` mixes. -/
def sampleWord (cid : U16) (slba : U64) (nlb : U16) : U64 :=
  slba ^^^ (cid.setWidth 64 <<< 48) ^^^ (nlb.setWidth 64 <<< 32)

/-- The mixing steps of `ntp_sample_hash`. -/
def sampleMix (x : U64) : U64 :=
  let x := x ^^^ (x >>> 30)
  let x := x * 0xbf58476d1ce4e5b9#64
  let x := x ^^^ (x >>> 27)
  let x := x * 0x94d049bb133111eb#64
  x ^^^ (x >>> 31)

/-- The test of `ntp_sampled`, on the hash. -/
def sampledHash (f : Filter) (h : U64) : Bool :=
  if f.sampleEvery ≤ 1 then true else h % f.sampleEvery.setWidth 64 == 0

theorem ntpSampleHash_eq (cid : U16) (slba : U64) (nlb : U16) :
    ntpSampleHash cid slba nlb = sampleMix (sampleWord cid slba nlb) := rfl

theorem ntpSampled_eq (f : Filter) (cid : U16) (slba : U64) (nlb : U16) :
    ntpSampled f cid slba nlb = sampledHash f (ntpSampleHash cid slba nlb) := rfl

theorem sampleMix_bijective : Function.Bijective sampleMix := by
  have h₁ : Function.Injective fun x : U64 => x * 0xbf58476d1ce4e5b9#64 :=
    mul_injective (b := 0x96de1b173f119089#64) (by decide)
  have h₂ : Function.Injective fun x : U64 => x * 0x94d049bb133111eb#64 :=
    mul_injective (b := 0x319642b2d24d8ec3#64) (by decide)
  have hmix : sampleMix = xorShift 31 ∘ (fun x : U64 => x * 0x94d049bb133111eb#64) ∘ xorShift 27 ∘
      (fun x : U64 => x * 0xbf58476d1ce4e5b9#64) ∘ xorShift 30 := rfl
  rw [hmix]
  refine bijective_of_injective ?_
  refine (xorShift_injective (by omega)).comp (h₂.comp ((xorShift_injective (by omega)).comp (h₁.comp ?_)))
  exact xorShift_injective (by omega)

theorem sampleWord_injective (cid nlb : U16) : Function.Injective fun slba => sampleWord cid slba nlb := by
  intro slba slba' h
  simpa [sampleWord, BitVec.xor_assoc] using h

theorem getLsbD_eq_false {x : U64} (hx : x.toNat < 2 ^ 32) {i : ℕ} (hi : 32 ≤ i) : x.getLsbD i = false :=
  Nat.testBit_lt_two_pow (Nat.lt_of_lt_of_le hx (Nat.pow_le_pow_right (by omega) hi))

theorem getLsbD_sampleWord (cid : U16) (slba : U64) (nlb : U16) {i : ℕ} (hi : i < 64) :
    (sampleWord cid slba nlb).getLsbD i = ((slba.getLsbD i ^^ (decide (48 ≤ i) && cid.getLsbD (i - 48))) ^^
      (decide (32 ≤ i) && nlb.getLsbD (i - 32))) := by
  have hge : ∀ k, (!decide (i < k)) = decide (k ≤ i) := by
    intro k
    rw [← decide_not, decide_eq_decide, Nat.not_lt]
  simp [sampleWord, hi, hge]

/-- With block addresses below 2^32, the three fields do not overlap in the word. -/
theorem sampleWord_injOn {cid cid' : U16} {slba slba' : U64} {nlb nlb' : U16} (hs : slba.toNat < 2 ^ 32)
    (hs' : slba'.toNat < 2 ^ 32) (h : sampleWord cid slba nlb = sampleWord cid' slba' nlb') :
    cid = cid' ∧ slba = slba' ∧ nlb = nlb' := by
  have hbit : ∀ i < 64, (sampleWord cid slba nlb).getLsbD i = (sampleWord cid' slba' nlb').getLsbD i := by
    intro i _
    rw [h]
  have hnlb : nlb = nlb' := by
    apply BitVec.eq_of_getLsbD_eq
    intro i hi
    have hi' := hbit (32 + i) (by omega)
    have hlt : ¬ 48 ≤ 32 + i := by omega
    rw [getLsbD_sampleWord _ _ _ (by omega), getLsbD_sampleWord _ _ _ (by omega), getLsbD_eq_false hs (by omega),
      getLsbD_eq_false hs' (by omega)] at hi'
    simpa [hlt] using hi'
  have hcid : cid = cid' := by
    apply BitVec.eq_of_getLsbD_eq
    intro i hi
    have hi' := hbit (48 + i) (by omega)
    have hle : 32 ≤ 48 + i := by omega
    rw [getLsbD_sampleWord _ _ _ (by omega), getLsbD_sampleWord _ _ _ (by omega), getLsbD_eq_false hs (by omega),
      getLsbD_eq_false hs' (by omega), hnlb] at hi'
    simpa [hle] using hi'
  subst hnlb hcid
  exact ⟨rfl, sampleWord_injective cid nlb h, rfl⟩

/-! ## How many are sampled -/

theorem sampleEvery_pos {f : Filter} (hN : f.sampleEvery ≠ 0) : 0 < f.sampleEvery.toNat := by
  rw [Nat.pos_iff_ne_zero]
  intro h0
  exact hN (BitVec.eq_of_toNat_eq h0)

/-- A period of at most 1 divides every hash. -/
theorem sampledHash_iff {f : Filter} (hN : f.sampleEvery ≠ 0) (h : U64) :
    sampledHash f h = true ↔ h.toNat % f.sampleEvery.toNat = 0 := by
  have hpos := sampleEvery_pos hN
  unfold sampledHash
  split
  · rename_i hle
    rw [BitVec.le_def] at hle
    have hone : f.sampleEvery.toNat = 1 := by
      have h1 : (1 : U32).toNat = 1 := rfl
      omega
    rw [hone, Nat.mod_one]
    simp
  · rw [beq_iff_eq, ← BitVec.toNat_inj, BitVec.toNat_umod, BitVec.toNat_setWidth,
      Nat.mod_eq_of_lt (Nat.lt_of_lt_of_le f.sampleEvery.isLt (by decide))]
    rfl

theorem ncard_sampledHash {f : Filter} (hN : f.sampleEvery ≠ 0) :
    {h : U64 | sampledHash f h = true}.ncard = ⌈(2 ^ 64 : ℚ) / f.sampleEvery.toNat⌉₊ := by
  have hpos := sampleEvery_pos hN
  rw [← ncard_mod_eq_zero 64 hpos]
  simp only [sampledHash_iff hN]

/-- Sampling does not merge commands: the mixing steps are a bijection, so the hash differs whenever the block
addresses of two commands with one id and length do, and whenever two commands with block addresses below 2^32
do. With a period of N, 2^64 / N of all mixed values are sampled, rounded up, and so are as many of the block
addresses for each id and length. -/
theorem sample_hash_spreads (f : Filter) (hN : f.sampleEvery ≠ 0) :
    Function.Bijective sampleMix ∧
    (∀ cid slba nlb, ntpSampleHash cid slba nlb = sampleMix (sampleWord cid slba nlb)) ∧
    (∀ cid nlb, Function.Injective fun slba => ntpSampleHash cid slba nlb) ∧
    Set.InjOn (fun c : U16 × U64 × U16 => ntpSampleHash c.1 c.2.1 c.2.2) {c | c.2.1.toNat < 2 ^ 32} ∧
    {x : U64 | sampledHash f (sampleMix x) = true}.ncard = ⌈(2 ^ 64 : ℚ) / f.sampleEvery.toNat⌉₊ ∧
    ∀ cid nlb, {slba : U64 | ntpSampled f cid slba nlb = true}.ncard = ⌈(2 ^ 64 : ℚ) / f.sampleEvery.toNat⌉₊ := by
  have hinj : ∀ cid nlb, Function.Injective fun slba => ntpSampleHash cid slba nlb := by
    intro cid nlb
    exact sampleMix_bijective.injective.comp (sampleWord_injective cid nlb)
  refine ⟨sampleMix_bijective, ntpSampleHash_eq, hinj, ?_, ?_, ?_⟩
  · rintro ⟨cid, slba, nlb⟩ hs ⟨cid', slba', nlb'⟩ hs' h
    obtain ⟨rfl, rfl, rfl⟩ := sampleWord_injOn hs hs' (sampleMix_bijective.injective h)
    rfl
  · rw [← ncard_sampledHash hN]
    exact ncard_preimage sampleMix_bijective {h | sampledHash f h = true}
  · intro cid nlb
    simp only [ntpSampled_eq]
    rw [← ncard_sampledHash hN]
    exact ncard_preimage (bijective_of_injective (hinj cid nlb)) {h | sampledHash f h = true}

/-- The default period. -/
theorem sample_hash_spreads_thousand :
    ({ sampleEvery := 1000 } : Filter).sampleEvery ≠ 0 ∧
    {x : U64 | sampledHash { sampleEvery := 1000 } (sampleMix x) = true}.ncard = 18446744073709552 := by
  have hN : ({ sampleEvery := 1000 } : Filter).sampleEvery ≠ 0 := by decide
  obtain ⟨-, -, -, -, hcount, -⟩ := sample_hash_spreads { sampleEvery := 1000 } hN
  refine ⟨hN, ?_⟩
  rw [hcount]
  have hto : ({ sampleEvery := 1000 } : Filter).sampleEvery.toNat = 1000 := rfl
  rw [hto, Nat.ceil_eq_iff (by norm_num)]
  norm_num

end Ntprof.Bpf
