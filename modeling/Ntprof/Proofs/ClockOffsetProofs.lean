import Ntprof.ClockOffset
import Ntprof.Config
import Ntprof.Proofs.ReceiveProofs
import Mathlib.Algebra.Order.Group.Abs

/-!
# How far off arrival times are

The real-time clock was read somewhere between the two readings of the monotonic one, so the middle is off by at most
half of the gap. The narrowest of the turns is used, and its error is the error of every arrival time.
-/

namespace Ntprof

open Bpf (Filter ntpSkbArrival ntpPlausible)

/-! ## Differences that do not overflow -/

theorem toInt_sub_of_range {x y : S64} (hlow : -2 ^ 63 ≤ x.toInt - y.toInt) (hhigh : x.toInt - y.toInt < 2 ^ 63) :
    (x - y).toInt = x.toInt - y.toInt := by
  rw [BitVec.toInt_sub]
  exact Int.bmod_eq_of_le (by omega) (by omega)

theorem toInt_add_of_range {x y : S64} (hlow : -2 ^ 63 ≤ x.toInt + y.toInt) (hhigh : x.toInt + y.toInt < 2 ^ 63) :
    (x + y).toInt = x.toInt + y.toInt := by
  rw [BitVec.toInt_add]
  exact Int.bmod_eq_of_le (by omega) (by omega)

theorem toInt_half {x : S64} (h : 0 ≤ x.toInt) : (x.sdiv 2).toInt = x.toInt / 2 := by
  have hmax := @BitVec.toInt_lt 64 x
  rw [BitVec.toInt_sdiv, show (2 : S64).toInt = 2 from rfl, Int.tdiv_eq_ediv_of_nonneg h]
  exact Int.bmod_eq_of_le (by omega) (by omega)

/-! ## One turn -/

/-- The clocks while the offset is estimated: the real-time clock is ahead by `D`, is read between the two readings of
the monotonic clock, and no reading is near the end of the range. -/
def ReadsOffset (D : ℤ) (c : ClockRead) : Prop :=
  0 ≤ c.m1.ns.toInt ∧ c.m2.ns.toInt < 2 ^ 62 ∧
    ∃ t, c.m1.ns.toInt ≤ t ∧ t ≤ c.m2.ns.toInt ∧ c.r.ns.toInt = t + D

variable {D : ℤ} {c : ClockRead}

theorem ReadsOffset.gap (h : ReadsOffset D c) :
    c.gap.toInt = c.m2.ns.toInt - c.m1.ns.toInt ∧ 0 ≤ c.gap.toInt ∧ c.gap.toInt < 2 ^ 62 := by
  obtain ⟨h0, hmax, t, hlow, hhigh, -⟩ := h
  have hgap : c.gap.toInt = c.m2.ns.toInt - c.m1.ns.toInt := toInt_sub_of_range (by omega) (by omega)
  omega

/-- A turn is off by at most half of its gap. -/
theorem ReadsOffset.offset (h : ReadsOffset D c) (hD : |D| < 2 ^ 62) :
    |c.offset.toInt - D| ≤ (c.gap.toInt + 1) / 2 := by
  obtain ⟨hgap, hpos, hlt⟩ := h.gap
  obtain ⟨h0, hmax, t, hlow, hhigh, hr⟩ := h
  have hhalf := toInt_half hpos
  obtain ⟨hDlow, hDhigh⟩ := abs_lt.mp hD
  have hmid : (c.m1.ns + c.gap.sdiv 2).toInt = c.m1.ns.toInt + c.gap.toInt / 2 := by
    rw [← hhalf]
    exact toInt_add_of_range (by omega) (by omega)
  have hoff : c.offset.toInt = t + D - (c.m1.ns.toInt + c.gap.toInt / 2) := by
    rw [← hr, ← hmid]
    exact toInt_sub_of_range (by omega) (by omega)
  have herr : c.offset.toInt - D = t - c.m1.ns.toInt - c.gap.toInt / 2 := by
    rw [hoff]
    ring
  rw [herr, abs_le]
  clear hoff hmid hhalf hmax hlt hDlow hDhigh hD hr herr
  omega

/-! ## The narrowest turn -/

/-- What the loop keeps is the offset of a turn with the smallest gap. -/
theorem foldl_narrower {reads : List ClockRead} (h : ∀ c ∈ reads, ReadsOffset D c) (hne : reads ≠ []) :
    ∃ c ∈ reads, reads.foldl narrower (0, 0x7fffffffffffffff#64) = (c.offset, c.gap) ∧
      ∀ c' ∈ reads, c.gap.toInt ≤ c'.gap.toInt := by
  induction reads using List.reverseRecOn with
  | nil => exact absurd rfl hne
  | append_singleton reads c ih =>
    rw [List.foldl_append, List.foldl_cons, List.foldl_nil, narrower]
    simp only [BitVec.slt_iff_toInt_lt]
    rcases List.eq_nil_or_concat reads with rfl | hcons
    · have hlt := (h c (by simp)).gap.2.2
      have hmax : (0x7fffffffffffffff#64).toInt = 2 ^ 63 - 1 := rfl
      rw [List.foldl_nil, if_pos (by rw [hmax]; omega)]
      exact ⟨c, by simp, rfl, by simp⟩
    · obtain ⟨b, hb, hfold, hmin⟩ := ih (fun c' hc' => h c' (List.mem_append_left _ hc')) (by
        obtain ⟨_, _, rfl⟩ := hcons
        simp)
      rw [hfold]
      by_cases hlt : c.gap.toInt < b.gap.toInt
      · rw [if_pos hlt]
        refine ⟨c, by simp, rfl, fun c' hc' => ?_⟩
        rcases List.mem_append.mp hc' with hc' | hc'
        · have := hmin c' hc'
          omega
        · rw [List.mem_singleton.mp hc']
      · rw [if_neg hlt]
        refine ⟨b, List.mem_append_left _ hb, rfl, fun c' hc' => ?_⟩
        rcases List.mem_append.mp hc' with hc' | hc'
        · exact hmin c' hc'
        · rw [List.mem_singleton.mp hc']
          omega

/-- The estimate is off by at most half of the gap of any turn. -/
theorem realMinusMono_error {reads : Vector ClockRead 16} (h : ∀ c ∈ reads.toList, ReadsOffset D c) (hD : |D| < 2 ^ 62)
    {c : ClockRead} (hc : c ∈ reads.toList) : |(realMinusMono reads).toInt - D| ≤ (c.gap.toInt + 1) / 2 := by
  have hne : reads.toList ≠ [] := List.ne_nil_of_mem hc
  obtain ⟨b, hb, hfold, hmin⟩ := foldl_narrower h hne
  have herr := (h b hb).offset hD
  have hle := hmin c hc
  rw [realMinusMono, hfold]
  exact herr.trans (by omega)

/-! ## Arrival times -/

theorem toNat_of_toInt {x : U64} (h : 0 ≤ x.toInt) : (x.toNat : ℤ) = x.toInt := by
  rw [BitVec.toInt_eq_toNat_cond] at h ⊢
  split_ifs at h ⊢ <;> omega

/-- A packet that arrived at `T` on the monotonic clock, with a stamp of the real-time clock, under a filter whose
offset is off by at most `E`. -/
theorem arrival_error {f : Filter} {t : S64} {now : U64} {D T E : ℤ} (hoff : |f.realMinusMono.toInt - D| ≤ E)
    (hD : now.toNat - T < D) (hDmax : D < 2 ^ 62) (hT : T ≤ now.toNat) (hnow : now.toNat < 2 ^ 62) (ht : t.toInt = T + D)
    (hearly : E < T) (hrecent : now.toNat - T + E < 1000000000) : |((ntpSkbArrival f t now).toNat : ℤ) - T| ≤ E := by
  obtain ⟨hlow, hhigh⟩ := abs_le.mp hoff
  have hmono : BitVec.toInt (t - f.realMinusMono : U64) = t.toInt - f.realMinusMono.toInt :=
    toInt_sub_of_range (by omega) (by omega)
  have hmonoNat := toNat_of_toInt (x := t - f.realMinusMono) (by omega)
  have htNat : (BitVec.toNat (t : U64) : ℤ) = t.toInt := toNat_of_toInt (by omega)
  have hage : ntpPlausible t now = false := by
    have hlate : ¬ (t : U64) ≤ now := by
      rw [BitVec.le_def]
      omega
    rw [ntpPlausible, decide_eq_false hlate, Bool.and_false, Bool.false_and]
  rw [ntpSkbArrival, if_neg (by omega), hage]
  by_cases hle : (t - f.realMinusMono : U64) ≤ now
  · have hne : (t - f.realMinusMono : U64) ≠ 0 := by
      intro hzero
      rw [hzero] at hmono
      have h0 : (0 : U64).toInt = 0 := rfl
      omega
    have hyoung : now - (t - f.realMinusMono : U64) < Bpf.ntpSkbStampMaxAgeNs := by
      have hmax : Bpf.ntpSkbStampMaxAgeNs.toNat = 1000000000 := rfl
      rw [BitVec.lt_def, BitVec.toNat_sub_of_le hle, hmax]
      omega
    have hnear : ntpPlausible (t - f.realMinusMono) now = true := by
      rw [ntpPlausible, decide_eq_true hne, decide_eq_true hle, decide_eq_true hyoung]
      rfl
    simp only [hnear, if_true]
    rw [hmonoNat, abs_le]
    omega
  · have hnear : ntpPlausible (t - f.realMinusMono) now = false := by
      rw [ntpPlausible, decide_eq_false hle, Bool.and_false, Bool.false_and]
    simp only [hnear, Bool.false_eq_true, if_false]
    rw [BitVec.le_def] at hle
    rw [abs_le]
    omega

/-- Whatever the sixteen turns of `real_minus_mono` read, as long as the offset of the clocks does not change while it
is estimated and until the packet, and is more than the packet's age: the arrival time that a hook computes from the
stamp differs from when the packet did arrive by at most half of the narrowest gap, rounded up, if that and the age are
less than a second together. -/
theorem arrival_within_half_a_gap (reads : Vector ClockRead 16) (D T : ℤ) (cfg : NtpConfig) (sel : Option Filter)
    (t : S64) (now : U64) (c : ClockRead) (hreads : ∀ c ∈ reads.toList, ReadsOffset D c) (hc : c ∈ reads.toList)
    (hD : now.toNat - T < D) (hDmax : D < 2 ^ 62) (hT : T ≤ now.toNat) (hnow : now.toNat < 2 ^ 62) (ht : t.toInt = T + D)
    (hearly : (c.gap.toInt + 1) / 2 < T) (hrecent : now.toNat - T + (c.gap.toInt + 1) / 2 < 1000000000) :
    |((ntpSkbArrival (fillFilter cfg sel (realMinusMono reads)) t now).toNat : ℤ) - T| ≤ (c.gap.toInt + 1) / 2 := by
  have hoff : |(realMinusMono reads).toInt - D| ≤ (c.gap.toInt + 1) / 2 :=
    realMinusMono_error hreads (abs_lt.mpr ⟨by omega, hDmax⟩) hc
  exact arrival_error hoff hD hDmax hT hnow ht hearly hrecent

/-- A turn with a gap of 10 ns, 3 s after boot, 7 s behind the real-time clock. -/
def someRead : ClockRead := ⟨⟨3, 0⟩, ⟨10, 4⟩, ⟨3, 10⟩⟩

theorem arrival_within_half_a_gap_one :
    |((ntpSkbArrival (fillFilter configDefaults none (realMinusMono (Vector.replicate 16 someRead))) 10000000100
      3000000200).toNat : ℤ) - 3000000100| ≤ 5 := by
  have hread : ∀ c ∈ (Vector.replicate 16 someRead).toList, ReadsOffset 7000000000 c := by
    intro c hc
    rw [Vector.toList_replicate, List.mem_replicate] at hc
    rw [hc.2]
    exact ⟨by decide, by decide, 3000000004, by decide, by decide, by decide⟩
  exact arrival_within_half_a_gap (Vector.replicate 16 someRead) 7000000000 3000000100 configDefaults none 10000000100
    3000000200 someRead hread (by simp) (by decide) (by decide) (by decide) (by decide) (by decide) (by decide) (by decide)

end Ntprof
