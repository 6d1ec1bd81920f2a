import Ntprof.Report
import Ntprof.Proofs.StageProofs
import Ntprof.Proofs.BoundProofs
import Ntprof.Proofs.StatsProofs
import Mathlib.Algebra.BigOperators.Field

/-!
# Proofs: when the stage table adds up

Each row of the table is averaged over its own set of records. What the sum of the rows is off by (`rows_error`) is the
error of each row that the records do not agree on, and the mean of what each record's own rows are off by. `RowsFit`
says that none of these errors is there, `OneOff` that just one is. `Uniform` is the usual case: all records of a group
are joined, or none is.
-/

namespace Ntprof

open SignedSum

/-! ## Summaries -/

/-- The mean of a vector; 0 where it is empty. -/
def vecMean (v : List S64) : ℚ := (sumInt v : ℚ) / (v.length : ℚ)

theorem sumInt_perm {u v : List S64} (h : u.Perm v) : sumInt u = sumInt v :=
  (h.map BitVec.toInt).sum_eq

theorem vecMean_perm {u v : List S64} (h : u.Perm v) : vecMean u = vecMean v := by
  rw [vecMean, vecMean, sumInt_perm h, h.length_eq]

theorem ntpSummarize_perm (v : List S64) : (ntpSummarize v).1.Perm v := by
  unfold ntpSummarize
  split_ifs
  · exact .refl v
  · exact List.mergeSort_perm v cmpI64

theorem ntpSummarize_mean (v : List S64) : (ntpSummarize v).2.mean = vecMean v := by
  unfold ntpSummarize
  split_ifs with h0
  · simp [vecMean, h0]
  · simp only [vecMean]
    rw [sumInt_perm (List.mergeSort_perm v cmpI64)]

theorem ntpSummarize_n (v : List S64) : (ntpSummarize v).2.n = v.length := by
  unfold ntpSummarize
  split_ifs with h0
  · simp [h0]
  · rfl

/-! ## The sum of the rows -/

/-- The sum of the means of the rows that have samples. -/
def meanSum (rows : List SRow) : ℚ := ((rows.filter fun r => r.m.n != 0).map fun r => r.m.mean).sum

theorem setVec_perm (g : Group) (v w : RowVec) {x : List S64} (hx : x.Perm (g.vec v)) :
    ((g.setVec v x).vec w).Perm (g.vec w) := by
  by_cases hvw : w = v
  · subst hvw
    cases w <;> simpa [Group.setVec, Group.vec] using hx
  · cases v <;> cases w <;> simp_all [Group.setVec, Group.vec]

/-- Summarising one row after the other gives every row the mean of its vector: sorting does not
change a mean, and a row without samples would add 0. -/
theorem meanSum_summarizeRows (g : Group) (rows : List SRow) :
    meanSum (summarizeRows g rows).2 = (rows.map fun row => vecMean (g.vec row.v)).sum := by
  induction rows generalizing g with
  | nil => rfl
  | cons row rows ih =>
    have hrest : (rows.map fun r => vecMean ((summarizeRow g row).1.vec r.v)) =
        rows.map fun r => vecMean (g.vec r.v) :=
      List.map_congr_left fun r _ => vecMean_perm (setVec_perm g row.v r.v (ntpSummarize_perm _))
    have hstep : meanSum (summarizeRows g (row :: rows)).2 =
        vecMean (g.vec row.v) + meanSum (summarizeRows (summarizeRow g row).1 rows).2 := by
      have hm : (summarizeRow g row).2.m = (ntpSummarize (g.vec row.v)).2 := rfl
      simp only [meanSum, summarizeRows, List.filter_cons]
      by_cases hn : (g.vec row.v).length = 0
      · simp [hm, ntpSummarize_n, hn, vecMean]
      · simp [hm, ntpSummarize_n, hn, ntpSummarize_mean]
    rw [hstep, ih, hrest, List.map_cons, List.sum_cons]

/-! ## Rows over the records of a group -/

/-- The mean of `f` over some records. -/
def avg (rs : List (HostRec × Option TgtRec)) (f : HostRec × Option TgtRec → Int) : ℚ :=
  ((rs.map f).sum : ℚ) / (rs.length : ℚ)

theorem avg_add (rs : List (HostRec × Option TgtRec)) (f g : HostRec × Option TgtRec → Int) :
    avg rs f + avg rs g = avg rs fun r => f r + g r := by
  rw [avg, avg, avg, List.sum_map_add]
  push_cast
  ring

theorem avg_congr {rs : List (HostRec × Option TgtRec)} {f g : HostRec × Option TgtRec → Int}
    (h : ∀ r ∈ rs, f r = g r) : avg rs f = avg rs g := by
  rw [avg, avg, List.map_congr_left h]

/-- Whether a record has a sample for the row. -/
def rowValid (v : RowVec) (r : HostRec × Option TgtRec) : Bool :=
  match v with
  | .stage s => (breakdownOf r).stageValid s
  | .comp c => (breakdownOf r).valid c

/-- The record's sample for the row. -/
def rowWord (v : RowVec) (r : HostRec × Option TgtRec) : S64 :=
  match v with
  | .stage s => (breakdownOf r).stage s
  | .comp c => (breakdownOf r).comp c

/-- What the record contributes to the row, 0 where it has no sample. -/
def rowShare (v : RowVec) (r : HostRec × Option TgtRec) : Int :=
  if rowValid v r then (rowWord v r).toInt else 0

theorem vec_addAll (k : GroupKey) (rs : List (HostRec × Option TgtRec)) (v : RowVec) :
    (Group.addAll { key := k } rs).vec v =
      ((rs.filter usable).filter (rowValid v)).map (rowWord v) := by
  cases v with
  | stage s => exact (addAll_stage _ rs s).trans (List.nil_append _)
  | comp c => exact (addAll_comp _ rs c).trans (List.nil_append _)

/-- The usable records agree on the row: all of them have it, or it is nothing over those that have it. -/
def Agree (v : RowVec) (us : List (HostRec × Option TgtRec)) : Prop :=
  (∀ r ∈ us, rowValid v r = true) ∨ (us.map (rowShare v)).sum = 0

instance decidableAgree (v : RowVec) (us : List (HostRec × Option TgtRec)) : Decidable (Agree v us) :=
  inferInstanceAs (Decidable (_ ∨ _))

theorem Agree.of_zero {v : RowVec} {us : List (HostRec × Option TgtRec)} (h : ∀ r ∈ us, rowShare v r = 0) :
    Agree v us := by
  right
  refine List.sum_eq_zero fun x hx => ?_
  obtain ⟨r, hr, rfl⟩ := List.mem_map.1 hx
  exact h r hr

/-- Records without a sample for the row add nothing to it. -/
theorem sumInt_row (us : List (HostRec × Option TgtRec)) (v : RowVec) :
    sumInt ((us.filter (rowValid v)).map (rowWord v)) = (us.map (rowShare v)).sum := by
  unfold sumInt
  induction us with
  | nil => rfl
  | cons r us ih =>
    cases hr : rowValid v r with
    | false =>
      rw [List.filter_cons_of_neg (by simp [hr]), ih, List.map_cons, List.sum_cons, rowShare, hr]
      simp
    | true =>
      rw [List.filter_cons_of_pos hr, List.map_cons, List.map_cons, List.sum_cons, ih, List.map_cons, List.sum_cons,
        rowShare, hr, if_pos rfl]

/-- A row is averaged as the latency is exactly if the records agree on it. -/
theorem vecMean_eq_avg_iff {k : GroupKey} {rs : List (HostRec × Option TgtRec)} {v : RowVec} :
    vecMean ((Group.addAll { key := k } rs).vec v) = avg (rs.filter usable) (rowShare v) ↔
      Agree v (rs.filter usable) := by
  rw [vec_addAll, vecMean, avg, sumInt_row, List.length_map]
  constructor
  · intro heq
    by_cases hsum : ((rs.filter usable).map (rowShare v)).sum = 0
    · exact .inr hsum
    · left
      rw [div_eq_mul_inv, div_eq_mul_inv, mul_right_inj' (Int.cast_ne_zero.2 hsum), inv_inj, Nat.cast_inj] at heq
      exact List.length_filter_eq_length_iff.1 heq
  · rintro (hall | hsum)
    · rw [List.filter_eq_self.2 hall]
    · rw [hsum, Int.cast_zero, zero_div, zero_div]

/-! ## The identity of one record -/

/-- The timestamps of the record's two sides are below `clockEnd`. -/
def RecInTime (r : HostRec × Option TgtRec) : Prop :=
  InTime r.1.ts ∧ ∀ t, r.2 = some t → InTime t.ts

theorem usable_ok {r : HostRec × Option TgtRec} (hu : usable r = true) :
    (ntpBreakdown r.1 r.2).1 ≠ .incompleteHost := by
  simpa [usable] using hu

/-- The share of the block layer, as a number. -/
def blkInt (r : HostRec × Option TgtRec) : Int := (blkShare (breakdownOf r)).toInt

/-- The end-to-end latency, as a number. -/
def e2eInt (r : HostRec × Option TgtRec) : Int := ((breakdownOf r).comp .e2e).toInt

theorem Within.extra {b : Breakdown} (hb : Within b) (c : Comp) :
    AtMost (c.reach * clockEnd) (extra b c) := by
  unfold Ntprof.extra
  split_ifs
  · exact hb c
  · exact .zero _

theorem Within.blkShare {b : Breakdown} (hb : Within b) : AtMost (2 * clockEnd) (blkShare b) :=
  ((hb.extra .blkSub).add (hb .blkCmpl)).mono (by decide)

/-- The most a stage can be, in differences of timestamps. -/
def Stage.reach : Stage → Nat
  | .s1 => 2
  | .s2 => 4
  | .s3s5 => 10
  | .s6 => 4
  | .s7s9 => 1

theorem Within.stageSum {b : Breakdown} (hb : Within b) (s : Stage) :
    AtMost (s.reach * clockEnd) (stageSum b s) := by
  rw [stageSum_eq]
  cases s with
  | s1 =>
    simp only [Stage.parts, Stage.extras, List.map_cons, List.map_nil, List.sum_cons, List.sum_nil]
    exact (((hb .blkSub).add ((hb .blkCmpl).add (.zero 0))).add (.zero 0)).mono (by decide)
  | s2 =>
    simp only [Stage.parts, Stage.extras, List.map_cons, List.map_nil, List.sum_cons, List.sum_nil]
    exact (((hb .trSub).add ((hb .trCmpl).add (.zero 0))).add
      ((hb.extra .hostData).add (.zero 0))).mono (by decide)
  | s3s5 =>
    simp only [Stage.parts, Stage.extras, List.map_cons, List.map_nil, List.sum_cons, List.sum_nil]
    exact (((hb .net).add ((hb .tgtRx).add ((hb .hostRx).add (.zero 0)))).add
      ((hb.extra .hostWait).add ((hb.extra .tgtWait).add (.zero 0)))).mono (by decide)
  | s6 =>
    simp only [Stage.parts, Stage.extras, List.map_cons, List.map_nil, List.sum_cons, List.sum_nil]
    exact (((hb .tgtSub).add ((hb .tgtCmpl).add (.zero 0))).add
      ((hb.extra .tgtData).add (.zero 0))).mono (by decide)
  | s7s9 =>
    simp only [Stage.parts, Stage.extras, List.map_cons, List.map_nil, List.sum_cons, List.sum_nil]
    exact (((hb .tgtBe).add (.zero 0)).add (.zero 0)).mono (by decide)

/-- The shaped breakdown behind that of a usable record, with what the rows need of it. -/
theorem shaped_of_usable {r : HostRec × Option TgtRec} (hu : usable r = true) (ht : RecInTime r) :
    ∃ a, Shaped a ∧ Within a ∧ breakdownOf r = stages a := by
  obtain ⟨a, ha, hb⟩ := ntpBreakdown_shaped r.1 r.2 (usable_ok hu)
  have hw : Within (stages a) := hb ▸ ntpBreakdown_within ht.1 ht.2
  exact ⟨a, ha, hw.congr (stages_comp a).symm, hb⟩

theorem blkShare_stages (a : Breakdown) : blkShare (stages a) = blkShare a := by
  simp only [blkShare, extra, stages_comp, stages_valid]

theorem rowShare_stage {r : HostRec × Option TgtRec} {a : Breakdown} (ha : Shaped a)
    (hr : breakdownOf r = stages a) {s : Stage} (hs : s.parts.all a.valid = true) :
    rowShare (.stage s) r = (stageSum a s).toInt := by
  simp only [rowShare, rowValid, rowWord, hr, stages_stageValid ha.host.noStage, hs, if_true,
    stages_stage hs]

theorem rowShare_comp {r : HostRec × Option TgtRec} {a : Breakdown} (hr : breakdownOf r = stages a)
    (c : Comp) : rowShare (.comp c) r = (extra a c).toInt := by
  simp only [rowShare, rowValid, rowWord, hr, stages_comp, stages_valid, extra]
  split_ifs
  · rfl
  · rfl

/-- Of a joined record, the four other stages and the block layer's share are the latency. -/
theorem joined_record_sum {r : HostRec × Option TgtRec} (hu : usable r = true) (ht : RecInTime r)
    (hj : (breakdownOf r).joined = true) :
    blkInt r + (rowShare (.stage .s2) r + (rowShare (.stage .s3s5) r + (rowShare (.stage .s6) r +
      rowShare (.stage .s7s9) r))) = e2eInt r := by
  obtain ⟨a, ha, hw, hr⟩ := shaped_of_usable hu ht
  rw [hr, stages_joined] at hj
  have hp : ∀ s : Stage, s ≠ .s1 → s.parts.all a.valid = true := by
    intro s hs
    rw [joined_parts ha hj]
    simp [hs]
  have hsum : [blkShare a, stageSum a .s2, stageSum a .s3s5, stageSum a .s6, stageSum a .s7s9].sum =
      a.comp .e2e := by
    rw [← joined_sum ha hj]
    simp only [List.sum_cons, List.sum_nil]
    ring
  have h1 := hw.blkShare
  have h2 := hw.stageSum .s2
  have h3 := hw.stageSum .s3s5
  have h4 := hw.stageSum .s6
  have h5 := hw.stageSum .s7s9
  have h6 := hw .e2e
  have hint := sum_toInt_eq hsum (k := 22 * clockEnd) (by
    simp only [AtMost, Stage.reach, Comp.reach] at h1 h2 h3 h4 h5 h6
    simp only [List.map_cons, List.map_nil, List.sum_cons, List.sum_nil]
    omega) (by decide)
  rw [rowShare_stage ha hr (hp .s2 (by decide)), rowShare_stage ha hr (hp .s3s5 (by decide)),
    rowShare_stage ha hr (hp .s6 (by decide)), rowShare_stage ha hr (hp .s7s9 (by decide)), blkInt,
    e2eInt, hr, blkShare_stages, stages_comp, ← hint]
  simp only [List.map_cons, List.map_nil, List.sum_cons, List.sum_nil, Int.add_zero]

/-- Of a record that is not joined, the driver, the receive path, the wait for the data, the remote
component and the block layer's share are the latency. -/
theorem unjoined_record_sum {r : HostRec × Option TgtRec} (hu : usable r = true) (ht : RecInTime r)
    (hj : (breakdownOf r).joined = false) :
    blkInt r + (rowShare (.stage .s2) r + (rowShare (.comp .hostRx) r + (rowShare (.comp .hostWait) r +
      rowShare (.comp .remote) r))) = e2eInt r := by
  obtain ⟨a, ha, hw, hr⟩ := shaped_of_usable hu ht
  rw [hr, stages_joined] at hj
  have hp : Stage.s2.parts.all a.valid = true := by
    rw [unjoined_parts ha hj]
    rfl
  have hrx : extra a .hostRx = a.comp .hostRx := by simp [extra, ha.host.host .hostRx rfl]
  have hrem : extra a .remote = a.comp .remote := by simp [extra, (ha.unjoined hj).remote]
  have hsum : [blkShare a, stageSum a .s2, extra a .hostRx, extra a .hostWait, extra a .remote].sum =
      a.comp .e2e := by
    rw [← unjoined_sum ha hj, hrx, hrem]
    simp only [List.sum_cons, List.sum_nil]
    ring
  have h1 := hw.blkShare
  have h2 := hw.stageSum .s2
  have h3 := hw.extra .hostRx
  have h4 := hw.extra .hostWait
  have h5 := hw.extra .remote
  have h6 := hw .e2e
  have hint := sum_toInt_eq hsum (k := 12 * clockEnd) (by
    simp only [AtMost, Stage.reach, Comp.reach] at h1 h2 h3 h4 h5 h6
    simp only [List.map_cons, List.map_nil, List.sum_cons, List.sum_nil]
    omega) (by decide)
  rw [rowShare_stage ha hr hp, rowShare_comp hr, rowShare_comp hr, rowShare_comp hr, blkInt, e2eInt, hr,
    blkShare_stages, stages_comp, ← hint]
  simp only [List.map_cons, List.map_nil, List.sum_cons, List.sum_nil, Int.add_zero]

/-! ## The rows of one record -/

/-- The rows of a group's table under the joined flag `flag`; `spdk` if a record of it is from an SPDK host. -/
def tableRows (spdk flag : Bool) : List RowVec :=
  (if spdk then [] else [.stage .s1]) ++ .stage .s2 ::
    if flag then [.stage .s3s5, .stage .s6, .stage .s7s9] else [.comp .hostRx, .comp .hostWait, .comp .remote]

/-- The components that a row adds up. -/
def RowVec.comps : RowVec → List Comp
  | .stage s => s.parts ++ s.extras
  | .comp c => [c]

/-- The component is in a row that the record has a sample of. -/
def shownIn (rows : List RowVec) (r : HostRec × Option TgtRec) (c : Comp) : Bool :=
  rows.any fun v => rowValid v r && v.comps.contains c

/-- What the components of a record's latency that are in no such row add up to. -/
def rowless (rows : List RowVec) (r : HostRec × Option TgtRec) : S64 :=
  ∑ c, if shownIn rows r c then 0 else weight (breakdownOf r) c

/-- The record's sample for the row, 0 where it has none. -/
def rowPart (v : RowVec) (r : HostRec × Option TgtRec) : S64 := if rowValid v r then rowWord v r else 0

theorem rowShare_eq (v : RowVec) (r : HostRec × Option TgtRec) : rowShare v r = (rowPart v r).toInt := by
  unfold rowShare rowPart
  split_ifs <;> simp

theorem sum_comps {l : List Comp} (hl : l.Nodup) (p : Bool) (w : Comp → S64) :
    (∑ c, if p && l.contains c then w c else 0) = if p then (l.map w).sum else 0 := by
  cases p with
  | false => simp
  | true =>
    rw [if_pos rfl, ← List.sum_toFinset w hl, ← Finset.sum_filter]
    refine Finset.sum_congr ?_ fun _ _ => rfl
    ext c
    simp

theorem weight_of_parts {b : Breakdown} {s : Stage} (hs : s.parts.all b.valid = true) :
    ((s.parts ++ s.extras).map (weight b)).sum = stageSum b s := by
  have hmain : ∀ c ∈ s.parts ++ s.extras, c.main = true := by cases s <;> decide
  have hparts : s.parts.map (weight b) = s.parts.map b.comp := by
    refine List.map_congr_left fun c hc => ?_
    rw [weight, hmain c (List.mem_append_left _ hc), List.all_eq_true.1 hs c hc]
    rfl
  have hextras : s.extras.map (weight b) = s.extras.map (extra b) := by
    refine List.map_congr_left fun c hc => ?_
    rw [weight, hmain c (List.mem_append_right _ hc), Bool.true_and, extra]
  rw [List.map_append, List.sum_append, hparts, hextras, stageSum_eq]

theorem sum_rows_comm (rows : List RowVec) (f : RowVec → Comp → S64) :
    (rows.map fun v => ∑ c, f v c).sum = ∑ c, (rows.map fun v => f v c).sum := by
  induction rows with
  | nil => simp
  | cons v rows ih => simp only [List.map_cons, List.sum_cons, ih, Finset.sum_add_distrib]

/-- A row adds up its components. -/
theorem rowPart_eq {r : HostRec × Option TgtRec} {a : Breakdown} (ha : Shaped a) (hr : breakdownOf r = stages a)
    {v : RowVec} (hv : ∀ c ∈ v.comps, c.main = true) :
    rowPart v r = ∑ c, if rowValid v r && v.comps.contains c then weight (breakdownOf r) c else 0 := by
  have hw : weight (breakdownOf r) = weight a := by
    funext c
    rw [hr, weight, weight, stages_valid, stages_comp]
  have hnd : v.comps.Nodup := by
    cases v with
    | stage s => cases s <;> decide
    | comp c => exact List.nodup_singleton c
  rw [sum_comps hnd, hw, rowPart]
  split_ifs with hval
  · cases v with
    | stage s =>
      have hp : s.parts.all a.valid = true := by
        rw [← stages_stageValid ha.host.noStage s, ← hr]
        exact hval
      rw [rowWord, hr, stages_stage hp]
      exact (weight_of_parts hp).symm
    | comp c =>
      have hc : a.valid c = true := by
        rw [← stages_valid a, ← hr]
        exact hval
      have hm := hv c (List.mem_singleton_self c)
      simp [rowWord, hr, stages_comp, RowVec.comps, weight, hm, hc]
  · rfl

/-- A component is in one row at most. -/
theorem sum_any {rows : List RowVec} (hd : rows.Pairwise fun v w => ∀ c ∈ v.comps, c ∉ w.comps)
    (p : RowVec → Bool) (c : Comp) (x : S64) :
    (rows.map fun v => if p v && v.comps.contains c then x else 0).sum =
      if rows.any fun v => p v && v.comps.contains c then x else 0 := by
  induction rows with
  | nil => rfl
  | cons v rows ih =>
    rw [List.pairwise_cons] at hd
    rw [List.map_cons, List.sum_cons, List.any_cons, ih hd.2]
    by_cases hv : (p v && v.comps.contains c) = true
    · have hrest : (rows.any fun v => p v && v.comps.contains c) = false := by
        simp only [Bool.and_eq_true, List.contains_iff_mem] at hv
        simp only [List.any_eq_false, Bool.and_eq_true, List.contains_iff_mem, not_and]
        exact fun w hw _ => hd.1 w hw c hv.2
      rw [if_pos hv, hv, hrest]
      simp
    · rw [if_neg hv, Bool.eq_false_of_not_eq_true hv, Bool.false_or, zero_add]

theorem tableRows_apart (spdk flag : Bool) :
    (tableRows spdk flag).Pairwise fun v w => ∀ c ∈ v.comps, c ∉ w.comps := by
  cases spdk <;> cases flag <;> decide

theorem tableRows_nodup (spdk flag : Bool) : (tableRows spdk flag).Nodup := by
  cases spdk <;> cases flag <;> decide

theorem tableRows_main (spdk flag : Bool) : ∀ v ∈ tableRows spdk flag, ∀ c ∈ v.comps, c.main = true := by
  cases spdk <;> cases flag <;> decide

/-- The rows of a record and what of it is in none of them are its latency. -/
theorem rowParts_sum {r : HostRec × Option TgtRec} (hu : usable r = true) (spdk flag : Bool) :
    ((tableRows spdk flag).map (rowPart · r)).sum + rowless (tableRows spdk flag) r = (breakdownOf r).comp .e2e := by
  obtain ⟨a, ha, hb⟩ := ntpBreakdown_shaped r.1 r.2 (usable_ok hu)
  have hr : breakdownOf r = stages a := hb
  have hrows : ((tableRows spdk flag).map (rowPart · r)).sum =
      ∑ c, if shownIn (tableRows spdk flag) r c then weight (breakdownOf r) c else 0 := by
    rw [List.map_congr_left fun v hv => rowPart_eq ha hr (tableRows_main spdk flag v hv), sum_rows_comm]
    exact Finset.sum_congr rfl fun c _ => sum_any (tableRows_apart spdk flag) (rowValid · r) c _
  have hsum : mainSum (breakdownOf r) = (breakdownOf r).comp .e2e := by
    rw [hr, mainSum_congr (stages_valid a) (stages_comp a), stages_comp]
    exact ha.addsUp.1
  rw [hrows, rowless, ← Finset.sum_add_distrib, ← hsum, mainSum_eq_sum]
  refine Finset.sum_congr rfl fun c _ => ?_
  split_ifs
  · exact add_zero _
  · exact zero_add _

/-! ## When the rows add up -/

/-- One of the records is from an SPDK host. -/
def ofSpdk (rs : List (HostRec × Option TgtRec)) : Bool := rs.any fun r => r.1.hdr.has ntpFSpdk

/-- What is in none of the rows adds up to 0, and the record's samples in them to a signed word. -/
def Shown (rows : List RowVec) (r : HostRec × Option TgtRec) : Prop :=
  rowless rows r = 0 ∧ SignedWord (rows.map (rowShare · r)).sum

instance decidableShown (rows : List RowVec) (r : HostRec × Option TgtRec) : Decidable (Shown rows r) :=
  inferInstanceAs (Decidable (_ ∧ _ ∧ _))

/-- The usable records of a group agree on the rows of its table under the joined flag `flag`, and each of them is shown
in these rows. -/
structure RowsFit (flag : Bool) (rs : List (HostRec × Option TgtRec)) : Prop where
  shared : ∀ v ∈ tableRows (ofSpdk rs) flag, Agree v (rs.filter usable)
  shown : ∀ r ∈ rs.filter usable, Shown (tableRows (ofSpdk rs) flag) r

/-- One thing is off: the records do not agree on one of the rows, or one of the records is not shown. -/
inductive OneOff (flag : Bool) (rs : List (HostRec × Option TgtRec)) : Prop
  | row (v : RowVec) (hv : v ∈ tableRows (ofSpdk rs) flag) (hoff : ¬ Agree v (rs.filter usable))
      (hothers : ∀ w ∈ tableRows (ofSpdk rs) flag, w ≠ v → Agree w (rs.filter usable))
      (hshown : ∀ r ∈ rs.filter usable, Shown (tableRows (ofSpdk rs) flag) r)
  | record (us ws : List (HostRec × Option TgtRec)) (r : HostRec × Option TgtRec)
      (hus : rs.filter usable = us ++ r :: ws) (hoff : ¬ Shown (tableRows (ofSpdk rs) flag) r)
      (hothers : ∀ x ∈ us ++ ws, Shown (tableRows (ofSpdk rs) flag) x)
      (hshared : ∀ v ∈ tableRows (ofSpdk rs) flag, Agree v (rs.filter usable))

/-- A record is shown in the rows exactly if its samples in them add up to its latency. -/
theorem rowShares_sum_iff {r : HostRec × Option TgtRec} (hu : usable r = true) (spdk flag : Bool) :
    ((tableRows spdk flag).map (rowShare · r)).sum = e2eInt r ↔ Shown (tableRows spdk flag) r := by
  have hsum := rowParts_sum hu spdk flag
  have hint : (((tableRows spdk flag).map (rowPart · r)).map BitVec.toInt).sum =
      ((tableRows spdk flag).map (rowShare · r)).sum := by
    rw [List.map_map]
    exact congrArg List.sum (List.map_congr_left fun v _ => (rowShare_eq v r).symm)
  constructor
  · intro he
    have hword : ((tableRows spdk flag).map (rowPart · r)).sum = (breakdownOf r).comp .e2e := by
      rw [← ofInt_sum, hint, he, e2eInt, BitVec.ofInt_toInt]
    rw [hword] at hsum
    refine ⟨add_eq_left.1 hsum, ?_⟩
    rw [he]
    exact ⟨BitVec.le_toInt _, BitVec.toInt_lt⟩
  · rintro ⟨hless, hfits⟩
    rw [hless, add_zero] at hsum
    rw [← hint] at hfits ⊢
    exact sum_toInt_of_signedWord hsum hfits

section

variable {k : GroupKey} {rs : List (HostRec × Option TgtRec)}

theorem tableRows_sum {M : Type} [AddCommMonoid M] (spdk flag : Bool) (f : RowVec → M) :
    ((tableRows spdk flag).map f).sum = (if spdk then 0 else f (.stage .s1)) + (f (.stage .s2) +
      if flag then f (.stage .s3s5) + (f (.stage .s6) + f (.stage .s7s9))
      else f (.comp .hostRx) + (f (.comp .hostWait) + f (.comp .remote))) := by
  cases spdk <;> cases flag <;> simp [tableRows]

theorem hostRows_mean (g : Group) :
    ((hostRows g).map fun row => vecMean (g.vec row.v)).sum =
      (if g.spdkHost then 0 else vecMean (g.vec (.stage .s1))) + vecMean (g.vec (.stage .s2)) := by
  unfold hostRows
  split_ifs <;> simp

/-- An empty vector's row, left out, would have added nothing. -/
theorem unjoinedRows_mean (g : Group) :
    ((unjoinedRows g).map fun row => vecMean (g.vec row.v)).sum =
      vecMean (g.vec (.comp .hostRx)) + (vecMean (g.vec (.comp .hostWait)) +
        vecMean (g.vec (.comp .remote))) := by
  unfold unjoinedRows
  by_cases hw : (g.comp .hostWait).length = 0
  · have h0 : vecMean (g.vec (.comp .hostWait)) = 0 := by simp [vecMean, Group.vec, hw]
    simp [hw, h0]
  · simp [hw]

theorem joinedRows_mean (g : Group) :
    ((joinedRows g).map fun row => vecMean (g.vec row.v)).sum =
      vecMean (g.vec (.stage .s3s5)) + (vecMean (g.vec (.stage .s6)) +
        vecMean (g.vec (.stage .s7s9))) := by
  simp [joinedRows]

/-- The rows of `stage_rows` are those of the table. -/
theorem rows_mean (g : Group) (joined : Bool) :
    ((hostRows g ++ if joined then joinedRows g else unjoinedRows g).map fun row => vecMean (g.vec row.v)).sum =
      ((tableRows g.spdkHost joined).map fun v => vecMean (g.vec v)).sum := by
  rw [tableRows_sum, List.map_append, List.sum_append, hostRows_mean, add_assoc]
  cases joined with
  | true => rw [if_pos rfl, if_pos rfl, joinedRows_mean]
  | false => rw [if_neg Bool.false_ne_true, if_neg Bool.false_ne_true, unjoinedRows_mean]

theorem avg_sum (us : List (HostRec × Option TgtRec)) (rows : List RowVec) (f : RowVec → HostRec × Option TgtRec → Int) :
    (rows.map fun v => avg us (f v)).sum = avg us fun r => (rows.map fun v => f v r).sum := by
  induction rows with
  | nil => simp [avg]
  | cons v rows ih => simp only [List.map_cons, List.sum_cons, ih, avg_add]

/-- The mean end-to-end latency is over all usable records. -/
theorem e2e_mean : (ntpSummarize ((Group.addAll { key := k } rs).comp .e2e)).2.mean =
    avg (rs.filter usable) e2eInt := by
  have hall : ∀ r ∈ rs.filter usable, rowValid (.comp .e2e) r = true := by
    intro r hr
    obtain ⟨a, ha, hb⟩ := ntpBreakdown_shaped r.1 r.2 (usable_ok (List.mem_filter.1 hr).2)
    simpa [rowValid, breakdownOf, hb] using ha.host.host .e2e rfl
  have hm := (vecMean_eq_avg_iff (k := k)).2 (Or.inl hall : Agree (.comp .e2e) _)
  rw [ntpSummarize_mean]
  refine hm.trans (avg_congr fun r hr => ?_)
  simp [rowShare, hall r hr, rowWord, e2eInt]

/-- What the mean of a row is off by. -/
def rowError (g : Group) (rs : List (HostRec × Option TgtRec)) (v : RowVec) : ℚ :=
  vecMean (g.vec v) - avg (rs.filter usable) (rowShare v)

/-- What the rows of a record are off by. -/
def recordError (rows : List RowVec) (r : HostRec × Option TgtRec) : Int := (rows.map (rowShare · r)).sum - e2eInt r

theorem rowError_eq_zero {v : RowVec} :
    rowError (Group.addAll { key := k } rs) rs v = 0 ↔ Agree v (rs.filter usable) := by
  rw [rowError, sub_eq_zero, vecMean_eq_avg_iff]

theorem recordError_eq_zero {r : HostRec × Option TgtRec} (hr : r ∈ rs.filter usable) (spdk flag : Bool) :
    recordError (tableRows spdk flag) r = 0 ↔ Shown (tableRows spdk flag) r := by
  rw [recordError, sub_eq_zero, rowShares_sum_iff (List.mem_filter.1 hr).2]

/-- What the sum of the rows is off by: the errors of the rows, and the mean error of the records. -/
theorem rows_error (joined : Bool) :
    meanSum (stageRows (Group.addAll { key := k } rs) joined).2 -
        (ntpSummarize ((Group.addAll { key := k } rs).comp .e2e)).2.mean =
      ((tableRows (ofSpdk rs) joined).map (rowError (Group.addAll { key := k } rs) rs)).sum +
        avg (rs.filter usable) (recordError (tableRows (ofSpdk rs) joined)) := by
  have hspdk : (Group.addAll { key := k } rs).spdkHost = ofSpdk rs := by
    rw [addAll_spdkHost]
    exact Bool.false_or _
  have hrecords : avg (rs.filter usable) (recordError (tableRows (ofSpdk rs) joined)) + avg (rs.filter usable) e2eInt =
      ((tableRows (ofSpdk rs) joined).map fun v => avg (rs.filter usable) (rowShare v)).sum := by
    rw [avg_add, avg_sum]
    exact avg_congr fun r _ => sub_add_cancel _ _
  have hrows : ((tableRows (ofSpdk rs) joined).map (rowError (Group.addAll { key := k } rs) rs)).sum +
        ((tableRows (ofSpdk rs) joined).map fun v => avg (rs.filter usable) (rowShare v)).sum =
      ((tableRows (ofSpdk rs) joined).map fun v => vecMean ((Group.addAll { key := k } rs).vec v)).sum := by
    rw [← List.sum_map_add]
    exact congrArg List.sum (List.map_congr_left fun v _ => sub_add_cancel _ _)
  rw [stageRows, meanSum_summarizeRows, rows_mean, hspdk, e2e_mean, ← hrows, ← hrecords]
  ring

theorem rows_add_up {joined : Bool} (hf : RowsFit joined rs) :
    meanSum (stageRows (Group.addAll { key := k } rs) joined).2 =
      (ntpSummarize ((Group.addAll { key := k } rs).comp .e2e)).2.mean := by
  have hrows : ((tableRows (ofSpdk rs) joined).map (rowError (Group.addAll { key := k } rs) rs)).sum = 0 := by
    refine List.sum_eq_zero fun x hx => ?_
    obtain ⟨v, hv, rfl⟩ := List.mem_map.1 hx
    exact rowError_eq_zero.2 (hf.shared v hv)
  have hrecords : avg (rs.filter usable) (recordError (tableRows (ofSpdk rs) joined)) = 0 := by
    rw [avg_congr fun r hr => (recordError_eq_zero hr _ _).2 (hf.shown r hr)]
    simp [avg]
  rw [← sub_eq_zero, rows_error, hrows, hrecords, add_zero]

theorem sum_map_of_one {α M : Type} [AddCommMonoid M] {us ws : List α} (x : α) (f : α → M)
    (h : ∀ y ∈ us ++ ws, f y = 0) : ((us ++ x :: ws).map f).sum = f x := by
  have hzero : ((us ++ ws).map f).sum = 0 := by
    refine List.sum_eq_zero fun z hz => ?_
    obtain ⟨y, hy, rfl⟩ := List.mem_map.1 hz
    exact h y hy
  have hperm : ((us ++ x :: ws).map f).sum = ((x :: (us ++ ws)).map f).sum :=
    (List.perm_middle.map f).sum_eq
  rw [hperm, List.map_cons, List.sum_cons, hzero, add_zero]

/-- With one error nothing makes up for it. -/
theorem rows_do_not_add_up {joined : Bool} (hf : OneOff joined rs) :
    meanSum (stageRows (Group.addAll { key := k } rs) joined).2 ≠
      (ntpSummarize ((Group.addAll { key := k } rs).comp .e2e)).2.mean := by
  rw [← sub_ne_zero, rows_error]
  cases hf with
  | row v hv hoff hothers hshown =>
    have hrecords : avg (rs.filter usable) (recordError (tableRows (ofSpdk rs) joined)) = 0 := by
      rw [avg_congr fun r hr => (recordError_eq_zero hr _ _).2 (hshown r hr)]
      simp [avg]
    obtain ⟨us, ws, hsplit⟩ := List.mem_iff_append.1 hv
    have hnodup := tableRows_nodup (ofSpdk rs) joined
    rw [hsplit] at hnodup hothers
    have hrest : ∀ w ∈ us ++ ws, rowError (Group.addAll { key := k } rs) rs w = 0 := by
      intro w hw
      refine rowError_eq_zero.2 (hothers w (List.perm_middle.mem_iff.2 (List.mem_cons_of_mem v hw)) ?_)
      rintro rfl
      exact (List.nodup_middle.1 hnodup).notMem hw
    rw [hrecords, add_zero, hsplit, sum_map_of_one v _ hrest]
    exact fun hzero => hoff (rowError_eq_zero.1 hzero)
  | record us ws r hus hoff hothers hshared =>
    have hrows : ((tableRows (ofSpdk rs) joined).map (rowError (Group.addAll { key := k } rs) rs)).sum = 0 := by
      refine List.sum_eq_zero fun x hx => ?_
      obtain ⟨v, hv, rfl⟩ := List.mem_map.1 hx
      exact rowError_eq_zero.2 (hshared v hv)
    have hmem : ∀ x ∈ r :: (us ++ ws), x ∈ rs.filter usable := fun x hx => hus ▸ List.perm_middle.mem_iff.2 hx
    have hrest : ∀ x ∈ us ++ ws, recordError (tableRows (ofSpdk rs) joined) x = 0 := fun x hx =>
      (recordError_eq_zero (hmem x (List.mem_cons_of_mem r hx)) _ _).2 (hothers x hx)
    have hne : recordError (tableRows (ofSpdk rs) joined) r ≠ 0 := fun hzero =>
      hoff ((recordError_eq_zero (hmem r List.mem_cons_self) _ _).1 hzero)
    have hlength : ((us ++ r :: ws).length : ℚ) ≠ 0 := by
      rw [List.perm_middle.length_eq, List.length_cons]
      exact Nat.cast_ne_zero.2 (Nat.succ_ne_zero _)
    rw [hrows, zero_add, avg, hus, sum_map_of_one r _ hrest]
    exact div_ne_zero (Int.cast_ne_zero.2 hne) hlength

end

/-! ## Groups of one kind -/

/-- The request spent no time in the host's block layer: it started at `queue_rq`, where its start is
known, and was done with the response. -/
def NoBlockTime (h : HostRec) : Prop :=
  (startSeen h → h.ts .start = h.ts .queueRq) ∧ h.ts .blkDone = h.ts .rspProc

/-- The usable records of a group are all joined or all unjoined, as the flag says; those that are not joined all waited
for their data, or none did for any time; and all of them spent time in the block layer from a known start on, or none
did. -/
structure Uniform (flag : Bool) (rs : List (HostRec × Option TgtRec)) : Prop where
  inTime : ∀ r ∈ rs.filter usable, RecInTime r
  joined : ∀ r ∈ rs.filter usable, (breakdownOf r).joined = flag
  wait : flag = false → Agree (.comp .hostWait) (rs.filter usable)
  block : (ofSpdk rs = false ∧ ∀ r ∈ rs.filter usable, startSeen r.1) ∨ ∀ r ∈ rs.filter usable, NoBlockTime r.1

/-- With a start, the first stage is the block layer's share. -/
theorem rowShare_s1 {r : HostRec × Option TgtRec} (hu : usable r = true) :
    rowValid (.stage .s1) r = decide (startSeen r.1) ∧
      rowShare (.stage .s1) r = if startSeen r.1 then blkInt r else 0 := by
  obtain ⟨a, ha, hb⟩ := ntpBreakdown_shaped r.1 r.2 (usable_ok hu)
  have hr : breakdownOf r = stages a := hb
  have hsub : a.valid .blkSub = decide (startSeen r.1) := by
    rw [← ntpBreakdown_blkSub r.1 r.2 (usable_ok hu)]
    exact (congrFun (stages_valid a) .blkSub).symm.trans (congrArg (fun b => b.valid .blkSub) hr.symm)
  have hv : rowValid (.stage .s1) r = decide (startSeen r.1) := by
    simp [rowValid, hr, stages_stageValid ha.host.noStage, Stage.parts, hsub, ha.host.host .blkCmpl rfl]
  refine ⟨hv, ?_⟩
  by_cases hs : startSeen r.1
  · have hp : Stage.s1.parts.all a.valid = true := by
      simp [Stage.parts, hsub, hs, ha.host.host .blkCmpl rfl]
    rw [rowShare_stage ha hr hp, stageSum_s1 (by simp [hsub, hs]), if_pos hs, blkInt, hr, blkShare_stages]
  · simp [rowShare, hv, hs]

theorem blkInt_of_noBlockTime {r : HostRec × Option TgtRec} (hu : usable r = true)
    (hn : NoBlockTime r.1) : blkInt r = 0 := by
  rw [blkInt, breakdownOf, ntpBreakdown_blkShare r.1 r.2 (usable_ok hu), hn.2]
  split_ifs with hs
  · rw [hn.1 hs]
    simp [d]
  · simp [d]

namespace Uniform

variable {flag : Bool} {rs : List (HostRec × Option TgtRec)}

/-- The row of the block layer, or its absence, accounts for the block layer's share of a record. -/
theorem blockRow (hf : Uniform flag rs) {r : HostRec × Option TgtRec} (hr : r ∈ rs.filter usable) :
    (if ofSpdk rs then 0 else rowShare (.stage .s1) r) = blkInt r := by
  have hu := (List.mem_filter.1 hr).2
  rcases hf.block with ⟨hsp, hst⟩ | hnb
  · rw [hsp, if_neg Bool.false_ne_true, (rowShare_s1 hu).2, if_pos (hst r hr)]
  · rw [(rowShare_s1 hu).2, blkInt_of_noBlockTime hu (hnb r hr), ite_self, ite_self]

theorem shared (hf : Uniform flag rs) : ∀ v ∈ tableRows (ofSpdk rs) flag, Agree v (rs.filter usable) := by
  have hmain : ∀ r ∈ rs.filter usable, ∃ a, Shaped a ∧ breakdownOf r = stages a := fun r hr =>
    ntpBreakdown_shaped r.1 r.2 (usable_ok (List.mem_filter.1 hr).2)
  intro v hv
  rw [tableRows, List.mem_append, List.mem_cons] at hv
  rcases hv with hv | rfl | hv
  · -- the block layer
    have hs1 : v = .stage .s1 ∧ ofSpdk rs = false := by
      cases hsp : ofSpdk rs <;> simp_all
    obtain ⟨rfl, hsp⟩ := hs1
    rcases hf.block with ⟨-, hst⟩ | hnb
    · left
      intro r hr
      rw [(rowShare_s1 (List.mem_filter.1 hr).2).1, decide_eq_true (hst r hr)]
    · refine .of_zero fun r hr => ?_
      have hu := (List.mem_filter.1 hr).2
      rw [(rowShare_s1 hu).2, blkInt_of_noBlockTime hu (hnb r hr), ite_self]
  · left
    intro r hr
    obtain ⟨a, ha, hb⟩ := hmain r hr
    simp [rowValid, hb, stages_stageValid ha.host.noStage, Stage.parts, ha.host.host .trSub rfl,
      ha.host.host .trCmpl rfl]
  · cases flag with
    | true =>
      obtain ⟨s, hs, rfl⟩ : ∃ s : Stage, s ≠ .s1 ∧ v = .stage s := by
        simp only [if_true, List.mem_cons, List.not_mem_nil, or_false] at hv
        rcases hv with rfl | rfl | rfl
        · exact ⟨.s3s5, by decide, rfl⟩
        · exact ⟨.s6, by decide, rfl⟩
        · exact ⟨.s7s9, by decide, rfl⟩
      left
      intro r hr
      obtain ⟨a, ha, hb⟩ := hmain r hr
      have hj := hf.joined r hr
      rw [hb, stages_joined] at hj
      simp [rowValid, hb, stages_stageValid ha.host.noStage, joined_parts ha hj, hs]
    | false =>
      simp only [Bool.false_eq_true, if_false, List.mem_cons, List.not_mem_nil, or_false] at hv
      rcases hv with rfl | rfl | rfl
      · left
        intro r hr
        obtain ⟨a, ha, hb⟩ := hmain r hr
        simp [rowValid, hb, ha.host.host .hostRx rfl]
      · exact hf.wait rfl
      · left
        intro r hr
        obtain ⟨a, ha, hb⟩ := hmain r hr
        have hj := hf.joined r hr
        rw [hb, stages_joined] at hj
        simp [rowValid, hb, (ha.unjoined hj).remote]

/-- The rows of a group of one kind add up. -/
theorem rowsFit (hf : Uniform flag rs) : RowsFit flag rs := by
  refine ⟨hf.shared, fun r hr => ?_⟩
  have hu := (List.mem_filter.1 hr).2
  refine (rowShares_sum_iff hu _ _).1 ?_
  rw [tableRows_sum, hf.blockRow hr]
  cases flag with
  | true => exact joined_record_sum hu (hf.inTime r hr) (hf.joined r hr)
  | false => exact unjoined_record_sum hu (hf.inTime r hr) (hf.joined r hr)

end Uniform

/-- After any sequence of `ntp_stats_add` calls, the rows of a group's table that fit its records add up to the mean
latency, in `print_stages` and on both sides of `compare_group`; they do not where one thing is off. -/
theorem stage_rows_add_up_of_fit {s₀ : Stats} (h₀ : s₀.groups = [])
    (recs : List (HostRec × Option TgtRec)) {g : Group} (hg : g ∈ (statsRun s₀ recs).groups) :
    (RowsFit (groupJoined g) (recsOf s₀ g.key recs) →
      meanSum (printStages g).2 = (ntpSummarize (g.comp .e2e)).2.mean) ∧
    (OneOff (groupJoined g) (recsOf s₀ g.key recs) →
      meanSum (printStages g).2 ≠ (ntpSummarize (g.comp .e2e)).2.mean) ∧
    ∀ other : Group,
      (RowsFit (groupJoined g && groupJoined other) (recsOf s₀ g.key recs) →
        meanSum (compareGroup g other).1.2 = (ntpSummarize (g.comp .e2e)).2.mean ∧
        meanSum (compareGroup other g).2.2 = (ntpSummarize (g.comp .e2e)).2.mean) ∧
      (OneOff (groupJoined g && groupJoined other) (recsOf s₀ g.key recs) →
        meanSum (compareGroup g other).1.2 ≠ (ntpSummarize (g.comp .e2e)).2.mean ∧
        meanSum (compareGroup other g).2.2 ≠ (ntpSummarize (g.comp .e2e)).2.mean) := by
  have hmade := (groupsOf_run h₀ recs).made g hg
  have hfit : ∀ joined, RowsFit joined (recsOf s₀ g.key recs) →
      meanSum (stageRows g joined).2 = (ntpSummarize (g.comp .e2e)).2.mean := by
    intro joined hf
    have := rows_add_up (k := g.key) hf
    rwa [← hmade] at this
  have hoff : ∀ joined, OneOff joined (recsOf s₀ g.key recs) →
      meanSum (stageRows g joined).2 ≠ (ntpSummarize (g.comp .e2e)).2.mean := by
    intro joined hf
    have := rows_do_not_add_up (k := g.key) hf
    rwa [← hmade] at this
  refine ⟨hfit _, hoff _, fun other => ⟨fun hf => ⟨hfit _ hf, ?_⟩, fun hf => ⟨hoff _ hf, ?_⟩⟩⟩
  · rw [Bool.and_comm] at hf
    exact hfit _ hf
  · rw [Bool.and_comm] at hf
    exact hoff _ hf

/-- Another read over TCP, 1000 ns slower on the way. -/
def slowReadHost : HostRec where
  ts := fun
    | .start => 1000
    | .queueRq => 1100
    | .cmdSent => 1300
    | .c2hArr => 7300
    | .c2hProc => 7500
    | .rspArr => 7900
    | .rspProc => 8000
    | .nvmeDone => 8100
    | .blkDone => 8300
    | _ => 0

def twoReads : List (HostRec × Option TgtRec) :=
  [(exampleReadHost, some exampleReadTarget), (slowReadHost, some exampleReadTarget)]

theorem twoReads_fit : RowsFit true twoReads := by
  have ht : InTime exampleReadTarget.ts := by
    intro i
    cases i <;> decide
  have hin : ∀ h : HostRec, InTime h.ts → RecInTime (h, some exampleReadTarget) := by
    rintro h hh
    refine ⟨hh, ?_⟩
    rintro t ⟨⟩
    exact ht
  refine Uniform.rowsFit ⟨fun r hr => ?_, by decide, nofun, Or.inl ⟨by decide, by decide⟩⟩
  have hr := List.mem_of_mem_filter hr
  simp only [twoReads, List.mem_cons, List.not_mem_nil, or_false] at hr
  rcases hr with rfl | rfl
  · apply hin
    intro i
    cases i <;> decide
  · apply hin
    intro i
    cases i <;> decide

/-- A read over TCP late in the life of a host; its data is there at `done`, and was worked on for `busy`. -/
def lateReadHost (done busy : U64) : HostRec where
  c2hBusyNs := busy
  ts := fun
    | .start => 0x1000000000001000
    | .queueRq => 0x1000000000001100
    | .cmdSent => 0x1000000000001300
    | .c2hArr => 0x1000000000006300
    | .c2hProc => 0x1000000000006500
    | .c2hDone => done
    | .rspArr => 0x1000000000006900
    | .rspProc => 0x1000000000007000
    | .nvmeDone => 0x1000000000007100
    | .blkDone => 0x1000000000007300
    | _ => 0

/-- One of these reads has no wait for its data, the other one none that is known. -/
def lateReads : List (HostRec × Option TgtRec) :=
  [(lateReadHost 0x1000000000006600 0x500, none), (lateReadHost 0 0, none)]

theorem lateReads_fit : RowsFit false lateReads := by
  constructor <;> decide +kernel

/-- One of these reads waited for the rest of its data. -/
def waitingReads : List (HostRec × Option TgtRec) :=
  [(lateReadHost 0x1000000000006600 0x80, none), (lateReadHost 0 0, none)]

theorem waitingReads_oneOff : OneOff false waitingReads :=
  .row (.comp .hostWait) (by decide +kernel) (by decide +kernel) (by decide +kernel) (by decide +kernel)

theorem stage_rows_add_up_of_fit_reads :
    (∃ g ∈ (statsRun (ntpStatsInit true true false) twoReads).groups,
      meanSum (printStages g).2 = (ntpSummarize (g.comp .e2e)).2.mean ∧
      (ntpSummarize (g.comp .e2e)).2.n = 2) ∧
    (∃ g ∈ (statsRun (ntpStatsInit true true false) lateReads).groups,
      meanSum (printStages g).2 = (ntpSummarize (g.comp .e2e)).2.mean ∧
      (ntpSummarize (g.comp .e2e)).2.n = 2 ∧ g.comp .hostWait = [0]) ∧
    ∃ g ∈ (statsRun (ntpStatsInit true true false) waitingReads).groups,
      meanSum (printStages g).2 ≠ (ntpSummarize (g.comp .e2e)).2.mean := by
  have hone : ∀ rs g, (statsRun (ntpStatsInit true true false) rs).groups = [g] →
      ∀ flag, groupJoined g = flag → RowsFit flag (recsOf (ntpStatsInit true true false) g.key rs) →
      meanSum (printStages g).2 = (ntpSummarize (g.comp .e2e)).2.mean := by
    rintro rs g hg _ rfl hf
    exact (stage_rows_add_up_of_fit rfl rs (hg ▸ List.mem_singleton_self g)).1 hf
  have hoff : ∀ rs g, (statsRun (ntpStatsInit true true false) rs).groups = [g] →
      ∀ flag, groupJoined g = flag → OneOff flag (recsOf (ntpStatsInit true true false) g.key rs) →
      meanSum (printStages g).2 ≠ (ntpSummarize (g.comp .e2e)).2.mean := by
    rintro rs g hg _ rfl hf
    exact (stage_rows_add_up_of_fit rfl rs (hg ▸ List.mem_singleton_self g)).2.1 hf
  refine ⟨⟨_, List.mem_singleton_self _, hone twoReads _ rfl true (by decide) twoReads_fit, ?_⟩,
    ⟨_, List.mem_singleton_self _, hone lateReads _ rfl false (by decide) lateReads_fit, ?_, by decide⟩,
    ⟨_, List.mem_singleton_self _, hoff waitingReads _ rfl false (by decide) waitingReads_oneOff⟩⟩
  · rw [ntpSummarize_n]
    decide
  · rw [ntpSummarize_n]
    decide

/-- A read with its target record and a slower one without: the network's and the target's rows are
over the first one alone, and the rows do not add up to the mean latency. -/
theorem mixed_group_does_not_add_up :
    ∃ g, (statsRun (ntpStatsInit true true false)
        [(exampleReadHost, some exampleReadTarget), (slowReadHost, none)]).groups = [g] ∧
      usable (exampleReadHost, some exampleReadTarget) = true ∧
      meanSum (printStages g).2 ≠ (ntpSummarize (g.comp .e2e)).2.mean := by
  refine ⟨_, rfl, by decide, ?_⟩
  rw [printStages, stageRows, meanSum_summarizeRows, ntpSummarize_mean]
  decide +kernel

end Ntprof
