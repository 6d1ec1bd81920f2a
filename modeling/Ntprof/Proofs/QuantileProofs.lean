import Ntprof.Stats
import Ntprof.Lib.Interpolation
import Mathlib.Data.List.GetD

/-!
# Quantiles

The quantiles of `ntp_summarize` are the linear interpolation of the sorted samples, rounded to the nearest integer.
Their order and their bounds follow from that.
-/

namespace Ntprof

open Interpolation (lerp)

/-! ## Reads -/

/-- `quantileOf`, which has no result where it reads the vector out of range. -/
def quantileRead (v : List S64) (q : ℚ) : Option S64 :=
  let pos := q * ((v.length - 1 : Nat) : ℚ)
  let lo := ⌊pos⌋.toNat
  let frac := pos - lo
  if v.length ≤ lo + 1 then v[v.length - 1]?
  else do
    let below ← v[lo]?
    let above ← v[lo + 1]?
    let gap : S64 := above - below
    pure (below + BitVec.ofInt 64 (truncInt ((gap.toInt : ℚ) * frac + 1 / 2)))

/-- `ntp_summarize`, which has no result where it reads the vector out of range. -/
def ntpSummarizeRead (v : List S64) : Option (List S64 × Summary) :=
  if v.length = 0 then some (v, {})
  else do
    let sorted := v.mergeSort cmpI64
    let min ← sorted[0]?
    let max ← sorted[v.length - 1]?
    let q ← ntpQuantiles.mapM (quantileRead sorted)
    pure (sorted, { n := v.length, mean := (sumInt sorted : ℚ) / (v.length : ℚ), min := min, max := max, q := q })

theorem getElem?_eq_getD {v : List S64} {i : ℕ} (h : i < v.length) : v[i]? = some (v.getD i 0) := by
  rw [List.getElem?_eq_getElem h, List.getD_eq_getElem _ _ h]

theorem quantileRead_eq {v : List S64} (hv : v ≠ []) (q : ℚ) : quantileRead v q = some (quantileOf v q) := by
  have hpos : 0 < v.length := List.length_pos_of_ne_nil hv
  simp only [quantileRead, quantileOf]
  split_ifs with hlo
  · exact getElem?_eq_getD (by omega)
  · rw [getElem?_eq_getD (by omega), getElem?_eq_getD (by omega)]
    rfl

theorem mapM_quantileRead {v : List S64} (hv : v ≠ []) (qs : List ℚ) :
    qs.mapM (quantileRead v) = some (qs.map (quantileOf v)) := by
  rw [funext fun q => quantileRead_eq hv q]
  exact List.mapM_pure

/-- The vector is never read out of range. -/
theorem ntpSummarizeRead_eq (v : List S64) : ntpSummarizeRead v = some (ntpSummarize v) := by
  unfold ntpSummarizeRead ntpSummarize
  split_ifs with hlen
  · rfl
  · have hsorted : (v.mergeSort cmpI64).length = v.length := List.length_mergeSort v
    have hne : v.mergeSort cmpI64 ≠ [] := by
      rw [← List.length_pos_iff, hsorted]
      omega
    have hmin : (v.mergeSort cmpI64)[0]? = some ((v.mergeSort cmpI64).getD 0 0) := getElem?_eq_getD (by omega)
    have hmax : (v.mergeSort cmpI64)[v.length - 1]? = some ((v.mergeSort cmpI64).getD (v.length - 1) 0) :=
      getElem?_eq_getD (by omega)
    simp only [hmin, hmax, mapM_quantileRead hne]
    rfl

/-! ## The sorted samples -/

theorem cmpI64_trans (a b c : S64) (hab : cmpI64 a b) (hbc : cmpI64 b c) : cmpI64 a c := by
  simp only [cmpI64, decide_eq_true_eq] at *
  exact hab.trans hbc

theorem cmpI64_total (a b : S64) : cmpI64 a b || cmpI64 b a := by
  simp only [cmpI64, Bool.or_eq_true, decide_eq_true_eq]
  exact le_total _ _

theorem cmpI64_antisymm {a b : S64} (hab : cmpI64 a b) (hba : cmpI64 b a) : a = b := by
  simp only [cmpI64, decide_eq_true_eq] at hab hba
  exact BitVec.eq_of_toInt_eq (le_antisymm hab hba)

theorem sorted_pairwise (v : List S64) : (v.mergeSort cmpI64).Pairwise fun a b => cmpI64 a b :=
  List.pairwise_mergeSort cmpI64_trans cmpI64_total v

/-- The order of the samples does not matter. -/
theorem mergeSort_eq_of_perm {v w : List S64} (h : w.Perm v) : w.mergeSort cmpI64 = v.mergeSort cmpI64 := by
  have hperm : (w.mergeSort cmpI64).Perm (v.mergeSort cmpI64) :=
    ((List.mergeSort_perm w cmpI64).trans h).trans (List.mergeSort_perm v cmpI64).symm
  exact hperm.eq_of_pairwise (fun a b _ _ hab hba => cmpI64_antisymm hab hba) (sorted_pairwise w) (sorted_pairwise v)

theorem ntpSummarize_eq_of_perm {v w : List S64} (h : w.Perm v) (hv : v ≠ []) : ntpSummarize w = ntpSummarize v := by
  have hlen : w.length = v.length := h.length_eq
  have hpos : v.length ≠ 0 := List.length_eq_zero_iff.not.mpr hv
  unfold ntpSummarize
  rw [if_neg hpos, hlen, if_neg hpos, mergeSort_eq_of_perm h]

theorem ntpSummarize_sorted {v : List S64} (hv : v ≠ []) : (ntpSummarize v).1 = v.mergeSort cmpI64 := by
  have hpos : v.length ≠ 0 := List.length_eq_zero_iff.not.mpr hv
  unfold ntpSummarize
  rw [if_neg hpos]

/-! ## Interpolation -/

/-- A rounded part of the difference of two samples is added without overflow. -/
theorem interpolate_toInt {x y : S64} {t : ℚ} (hxy : x.toInt ≤ y.toInt) (hfit : y.toInt - x.toInt < 2 ^ 63)
    (h0 : 0 ≤ t) (h1 : t ≤ 1) :
    (x + BitVec.ofInt 64 (truncInt (((y - x : S64).toInt : ℚ) * t + 1 / 2))).toInt
      = round ((x.toInt : ℚ) + ((y.toInt - x.toInt : ℤ) : ℚ) * t) := by
  have hx := BitVec.le_toInt x
  have hy := BitVec.toInt_lt (x := y)
  have hgap : (y - x : S64).toInt = y.toInt - x.toInt := by
    rw [BitVec.toInt_sub]
    exact Int.bmod_eq_of_le_mul_two (by omega) (by omega)
  rw [hgap]
  obtain ⟨g, hg⟩ : ∃ g, y.toInt - x.toInt = g := ⟨_, rfl⟩
  rw [hg, round_intCast_add]
  have hg0 : (0 : ℚ) ≤ (g : ℚ) := Int.cast_nonneg (by omega)
  have hnonneg : (0 : ℚ) ≤ (g : ℚ) * t := mul_nonneg hg0 h0
  have htrunc : truncInt ((g : ℚ) * t + 1 / 2) = round ((g : ℚ) * t) := by
    rw [truncInt, if_pos (by linarith), round_eq]
  rw [htrunc]
  -- The rounded part is between 0 and the whole difference.
  have hlow : 0 ≤ round ((g : ℚ) * t) := by
    have h := Interpolation.round_mono hnonneg
    rwa [round_zero] at h
  have hhigh : round ((g : ℚ) * t) ≤ g := by
    have h := Interpolation.round_mono (mul_le_of_le_one_right hg0 h1)
    rwa [round_intCast] at h
  have hofInt : (BitVec.ofInt 64 (round ((g : ℚ) * t))).toInt = round ((g : ℚ) * t) := by
    rw [BitVec.toInt_ofInt]
    exact Int.bmod_eq_of_le_mul_two (by omega) (by omega)
  rw [BitVec.toInt_add, hofInt]
  exact Int.bmod_eq_of_le_mul_two (by omega) (by omega)

/-- The samples of a vector in order, the last one for ever. -/
def sampleAt (s : List S64) (i : ℕ) : ℤ := (s.getD (min i (s.length - 1)) 0).toInt

theorem sampleAt_eq {s : List S64} {i : ℕ} (h : i < s.length) : sampleAt s i = (s.getD i 0).toInt := by
  rw [sampleAt, min_eq_left (by omega)]

theorem sampleAt_mono {s : List S64} (hs : s.Pairwise fun a b => cmpI64 a b) : Monotone (sampleAt s) := by
  intro i j hij
  have hmin : min i (s.length - 1) ≤ min j (s.length - 1) := min_le_min_right _ hij
  rcases hmin.eq_or_lt with heq | hlt
  · rw [sampleAt, sampleAt, heq]
  · have hj : min j (s.length - 1) < s.length := by omega
    have hi : min i (s.length - 1) < s.length := by omega
    have hle := List.pairwise_iff_getElem.mp hs _ _ hi hj hlt
    rw [sampleAt, sampleAt, List.getD_eq_getElem _ _ hi, List.getD_eq_getElem _ _ hj]
    simpa only [cmpI64, decide_eq_true_eq] using hle

/-- The differences of neighbours among the sorted samples fit in 64 bits. -/
def NeighboursFit (s : List S64) : Prop := ∀ i, i + 1 < s.length → (s.getD (i + 1) 0).toInt - (s.getD i 0).toInt < 2 ^ 63

/-- A quantile is the interpolation at its position, rounded to the nearest integer. -/
theorem quantileOf_toInt {s : List S64} (hs : s.Pairwise fun a b => cmpI64 a b) (hne : s ≠ []) (hfit : NeighboursFit s)
    {q : ℚ} (h0 : 0 ≤ q) (h1 : q ≤ 1) :
    (quantileOf s q).toInt = round (lerp (sampleAt s) (q * ((s.length - 1 : ℕ) : ℚ))) := by
  have hlen : 0 < s.length := List.length_pos_of_ne_nil hne
  have hpos : 0 ≤ q * ((s.length - 1 : ℕ) : ℚ) := mul_nonneg h0 (Nat.cast_nonneg _)
  have hle : q * ((s.length - 1 : ℕ) : ℚ) ≤ ((s.length - 1 : ℕ) : ℚ) := mul_le_of_le_one_left (Nat.cast_nonneg _) h1
  unfold quantileOf
  generalize q * ((s.length - 1 : ℕ) : ℚ) = pos at hpos hle
  dsimp only
  obtain ⟨lo, hfl⟩ : ∃ lo, ⌊pos⌋.toNat = lo := ⟨_, rfl⟩
  rw [hfl]
  obtain rfl : ⌊pos⌋₊ = lo := (Int.floor_toNat pos).symm.trans hfl
  have hfloor : (⌊pos⌋₊ : ℚ) ≤ pos := Nat.floor_le hpos
  have hlast : ⌊pos⌋₊ ≤ s.length - 1 := Nat.floor_le_of_le hle
  by_cases hlo : s.length ≤ ⌊pos⌋₊ + 1
  · rw [if_pos hlo]
    -- The last position, which is a whole number.
    have hlo' : ⌊pos⌋₊ = s.length - 1 := by omega
    rw [hlo'] at hfloor
    rw [le_antisymm hle hfloor, Interpolation.lerp_natCast, round_intCast, sampleAt_eq (by omega)]
  · have hin : ⌊pos⌋₊ + 1 < s.length := by omega
    have hmono := sampleAt_mono hs (Nat.le_succ ⌊pos⌋₊)
    have hfrac : pos - (⌊pos⌋₊ : ℚ) ≤ 1 := by
      have := Nat.lt_floor_add_one pos
      linarith
    rw [Nat.succ_eq_add_one, sampleAt_eq hin, sampleAt_eq (Nat.lt_of_succ_lt hin)] at hmono
    rw [if_neg hlo, lerp, sampleAt_eq hin, sampleAt_eq (Nat.lt_of_succ_lt hin)]
    exact interpolate_toInt hmono (hfit _ hin) (sub_nonneg.mpr hfloor) hfrac

/-! ## Order and bounds -/

/-- A value at a position among the sorted samples: between the samples around it, and within one half of their linear
interpolation. -/
structure Interpolates (s : List S64) (pos : ℚ) (x : S64) : Prop where
  inRange : ⌈pos⌉₊ < s.length
  above : (s.getD ⌊pos⌋₊ 0).toInt ≤ x.toInt
  below : x.toInt ≤ (s.getD ⌈pos⌉₊ 0).toInt
  near : |(x.toInt : ℚ) - ((s.getD ⌊pos⌋₊ 0).toInt +
    (((s.getD ⌈pos⌉₊ 0).toInt - (s.getD ⌊pos⌋₊ 0).toInt : ℤ) : ℚ) * (pos - (⌊pos⌋₊ : ℚ)))| ≤ 1 / 2

theorem quantileOf_interpolates {s : List S64} (hs : s.Pairwise fun a b => cmpI64 a b) (hne : s ≠ [])
    (hfit : NeighboursFit s) {q : ℚ} (h0 : 0 ≤ q) (h1 : q ≤ 1) :
    Interpolates s (q * ((s.length - 1 : ℕ) : ℚ)) (quantileOf s q) := by
  have hlen : 0 < s.length := List.length_pos_of_ne_nil hne
  have hpos : 0 ≤ q * ((s.length - 1 : ℕ) : ℚ) := mul_nonneg h0 (Nat.cast_nonneg _)
  have hle : q * ((s.length - 1 : ℕ) : ℚ) ≤ ((s.length - 1 : ℕ) : ℚ) := mul_le_of_le_one_left (Nat.cast_nonneg _) h1
  have hvalue := quantileOf_toInt hs hne hfit h0 h1
  generalize q * ((s.length - 1 : ℕ) : ℚ) = pos at hpos hle hvalue ⊢
  have hceil : ⌈pos⌉₊ < s.length := by
    have := Nat.ceil_le.mpr hle
    omega
  have hfloor : ⌊pos⌋₊ < s.length := (Nat.floor_le_ceil pos).trans_lt hceil
  have hmono := sampleAt_mono hs
  refine ⟨hceil, ?_, ?_, ?_⟩
  · rw [hvalue, ← sampleAt_eq hfloor]
    exact Interpolation.le_round_lerp hmono hpos
  · rw [hvalue, ← sampleAt_eq hceil]
    exact Interpolation.round_lerp_le hmono hpos
  · rw [hvalue, ← sampleAt_eq hceil, ← sampleAt_eq hfloor, ← Interpolation.lerp_eq _ hpos, abs_sub_comm]
    exact abs_sub_round _

/-- A higher quantile is not smaller. -/
theorem quantileOf_mono {s : List S64} (hs : s.Pairwise fun a b => cmpI64 a b) (hne : s ≠ []) (hfit : NeighboursFit s)
    {q r : ℚ} (h0 : 0 ≤ q) (hqr : q ≤ r) (h1 : r ≤ 1) : (quantileOf s q).toInt ≤ (quantileOf s r).toInt := by
  rw [quantileOf_toInt hs hne hfit h0 (hqr.trans h1), quantileOf_toInt hs hne hfit (h0.trans hqr) h1]
  have hpos : q * ((s.length - 1 : ℕ) : ℚ) ≤ r * ((s.length - 1 : ℕ) : ℚ) :=
    mul_le_mul_of_nonneg_right hqr (Nat.cast_nonneg _)
  exact Interpolation.round_mono
    (Interpolation.lerp_mono (sampleAt_mono hs) (mul_nonneg h0 (Nat.cast_nonneg _)) hpos)

theorem ntpQuantiles_bounds : ∀ q ∈ ntpQuantiles, 0 ≤ q ∧ q ≤ 1 := by decide +kernel

theorem ntpQuantiles_ordered : ntpQuantiles.Pairwise (· ≤ ·) := by decide +kernel

theorem head_le_quantileOf {s : List S64} (hs : s.Pairwise fun a b => cmpI64 a b) (hne : s ≠ [])
    (hfit : NeighboursFit s) {q : ℚ} (h0 : 0 ≤ q) (h1 : q ≤ 1) : (s.getD 0 0).toInt ≤ (quantileOf s q).toInt := by
  have hq := quantileOf_interpolates hs hne hfit h0 h1
  have hfloor := (Nat.floor_le_ceil _).trans_lt hq.inRange
  have hmono := sampleAt_mono hs (Nat.zero_le ⌊q * ((s.length - 1 : ℕ) : ℚ)⌋₊)
  rw [sampleAt_eq (List.length_pos_of_ne_nil hne), sampleAt_eq hfloor] at hmono
  exact hmono.trans hq.above

theorem quantileOf_le_last {s : List S64} (hs : s.Pairwise fun a b => cmpI64 a b) (hne : s ≠ [])
    (hfit : NeighboursFit s) {q : ℚ} (h0 : 0 ≤ q) (h1 : q ≤ 1) :
    (quantileOf s q).toInt ≤ (s.getD (s.length - 1) 0).toInt := by
  have hlen : 0 < s.length := List.length_pos_of_ne_nil hne
  have hq := quantileOf_interpolates hs hne hfit h0 h1
  have hmono := sampleAt_mono hs (Nat.le_sub_one_of_lt hq.inRange)
  rw [sampleAt_eq hq.inRange, sampleAt_eq (Nat.sub_lt hlen Nat.one_pos)] at hmono
  exact hq.below.trans hmono

/-- The summary of a vector: the quantiles are in order and between the smallest and the largest sample, each one
interpolates the sorted samples at its position, no sample is read out of range, and neither the order of the vector
nor a second call matters. -/
theorem quantiles_ordered (v : List S64) (hv : v ≠ []) (hfit : NeighboursFit (v.mergeSort cmpI64)) :
    ((ntpSummarize v).2.min :: (ntpSummarize v).2.q ++ [(ntpSummarize v).2.max]).Pairwise
        (fun a b => a.toInt ≤ b.toInt) ∧
      List.Forall₂ (fun q x => Interpolates (ntpSummarize v).1 (q * ((v.length - 1 : ℕ) : ℚ)) x) ntpQuantiles
        (ntpSummarize v).2.q ∧
      ntpSummarizeRead v = some (ntpSummarize v) ∧ (∀ w : List S64, w.Perm v → ntpSummarize w = ntpSummarize v) ∧
      ntpSummarize (ntpSummarize v).1 = ntpSummarize v := by
  have hpos : v.length ≠ 0 := List.length_eq_zero_iff.not.mpr hv
  have hlen : (v.mergeSort cmpI64).length = v.length := List.length_mergeSort v
  have hne : v.mergeSort cmpI64 ≠ [] := by
    rw [← List.length_pos_iff, hlen]
    omega
  have hs := sorted_pairwise v
  have hsummary : ntpSummarize v = (v.mergeSort cmpI64,
      { n := v.length
        mean := (sumInt (v.mergeSort cmpI64) : ℚ) / (v.length : ℚ)
        min := (v.mergeSort cmpI64).getD 0 0
        max := (v.mergeSort cmpI64).getD (v.length - 1) 0
        q := ntpQuantiles.map (quantileOf (v.mergeSort cmpI64)) }) := if_neg hpos
  refine ⟨?_, ?_, ntpSummarizeRead_eq v, fun w hw => ntpSummarize_eq_of_perm hw hv, ?_⟩
  · rw [hsummary, ← hlen]
    simp only [List.cons_append, List.pairwise_cons, List.pairwise_append, List.mem_append, List.mem_singleton]
    refine ⟨?_, ?_, ⟨fun _ h => absurd h List.not_mem_nil, List.Pairwise.nil⟩, ?_⟩
    · rintro x (hx | rfl)
      · obtain ⟨q, hq, rfl⟩ := List.mem_map.mp hx
        exact head_le_quantileOf hs hne hfit (ntpQuantiles_bounds q hq).1 (ntpQuantiles_bounds q hq).2
      · exact (head_le_quantileOf hs hne hfit le_rfl zero_le_one).trans
          (quantileOf_le_last hs hne hfit le_rfl zero_le_one)
    · rw [List.pairwise_map]
      exact ntpQuantiles_ordered.imp_of_mem fun hq hr hqr =>
        quantileOf_mono hs hne hfit (ntpQuantiles_bounds _ hq).1 hqr (ntpQuantiles_bounds _ hr).2
    · rintro x hx _ rfl
      obtain ⟨q, hq, rfl⟩ := List.mem_map.mp hx
      exact quantileOf_le_last hs hne hfit (ntpQuantiles_bounds q hq).1 (ntpQuantiles_bounds q hq).2
  · rw [hsummary, List.forall₂_map_right_iff, List.forall₂_same, ← hlen]
    intro q hq
    exact quantileOf_interpolates hs hne hfit (ntpQuantiles_bounds q hq).1 (ntpQuantiles_bounds q hq).2
  · rw [ntpSummarize_sorted hv]
    exact ntpSummarize_eq_of_perm (List.mergeSort_perm v cmpI64) hv

/-- Two samples, not in order. -/
theorem quantiles_ordered_two :
    ([1000, 0] : List S64).mergeSort cmpI64 = [0, 1000] ∧ NeighboursFit [0, 1000] ∧
      ((ntpSummarize [1000, 0]).2.min :: (ntpSummarize [1000, 0]).2.q ++ [(ntpSummarize [1000, 0]).2.max]).Pairwise
        (fun a b => a.toInt ≤ b.toInt) := by
  have hsorted : ([1000, 0] : List S64).mergeSort cmpI64 = [0, 1000] := by
    have hperm : ([1000, 0] : List S64).Perm [0, 1000] := List.Perm.swap _ _ _
    rw [mergeSort_eq_of_perm hperm]
    exact List.mergeSort_of_pairwise (by decide)
  have hfit : NeighboursFit [0, 1000] := by
    intro i hi
    obtain rfl : i = 0 := by
      simp only [List.length_cons, List.length_nil] at hi
      omega
    decide
  exact ⟨hsorted, hfit, (quantiles_ordered [1000, 0] (by decide) (hsorted ▸ hfit)).1⟩

end Ntprof
