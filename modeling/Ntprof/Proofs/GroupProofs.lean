import Ntprof.Proofs.StatsProofs
import Ntprof.Proofs.OutcomeProofs

/-!
# Counters and samples of a group

The counters of a group come from the return code and the flags of `ntp_breakdown`, its vectors from
the validity bits. Each is the same question asked of every record of the group, so they fit together,
and none depends on the order of the records.
-/

namespace Ntprof

/-- A record as `ntp_stats_add` takes it. -/
abbrev StatRec := HostRec × Option TgtRec

/-! ## Folding over the records of a group -/

/-- A counter that goes up by one for the records `p`. -/
theorem addAll_counter (count : Group → Nat) (p : StatRec → Bool)
    (hstep : ∀ g r, count (Group.addRec g r.1 r.2) = count g + if p r then 1 else 0)
    (g : Group) (recs : List StatRec) : count (g.addAll recs) = count g + recs.countP p := by
  induction recs generalizing g with
  | nil => rfl
  | cons r recs ih =>
    have htail : count ((g.addRec r.1 r.2).addAll recs) = _ := ih (g.addRec r.1 r.2)
    rw [hstep] at htail
    show count ((g.addRec r.1 r.2).addAll recs) = _
    rw [htail, List.countP_cons]
    omega

/-- A vector that gets `f r` for every record `r`. -/
theorem addAll_vector (vec : Group → List S64) (f : StatRec → List S64)
    (hstep : ∀ g r, vec (Group.addRec g r.1 r.2) = vec g ++ f r)
    (g : Group) (recs : List StatRec) : vec (g.addAll recs) = vec g ++ recs.flatMap f := by
  induction recs generalizing g with
  | nil => simp [Group.addAll]
  | cons r recs ih =>
    have htail : vec ((g.addRec r.1 r.2).addAll recs) = _ := ih (g.addRec r.1 r.2)
    show vec ((g.addRec r.1 r.2).addAll recs) = _
    rw [htail, hstep, List.flatMap_cons, List.append_assoc]

/-- A flag that any of the records `p` sets. -/
theorem addAll_flag (flag : Group → Bool) (p : StatRec → Bool)
    (hstep : ∀ g r, flag (Group.addRec g r.1 r.2) = (flag g || p r))
    (g : Group) (recs : List StatRec) : flag (g.addAll recs) = (flag g || recs.any p) := by
  induction recs generalizing g with
  | nil => simp [Group.addAll]
  | cons r recs ih =>
    have htail : flag ((g.addRec r.1 r.2).addAll recs) = _ := ih (g.addRec r.1 r.2)
    show flag ((g.addRec r.1 r.2).addAll recs) = _
    rw [htail, hstep, List.any_cons, Bool.or_assoc]

/-! ## The counters -/

/-- A record with a target record that was not used. -/
def targetLeftOut (r : StatRec) : Bool := (ntpBreakdown r.1 r.2).1 = .incompleteTarget

theorem addRec_badHost (g : Group) (r : StatRec) :
    (g.addRec r.1 r.2).badHost = g.badHost + if !usable r then 1 else 0 := by
  rw [Group.addRec, usable]
  rcases ntpBreakdown r.1 r.2 with ⟨err, b⟩
  by_cases he : err = .incompleteHost <;> simp [he]

theorem addRec_badTarget (g : Group) (r : StatRec) :
    (g.addRec r.1 r.2).badTarget = g.badTarget + if targetLeftOut r then 1 else 0 := by
  rw [Group.addRec, targetLeftOut]
  rcases ntpBreakdown r.1 r.2 with ⟨err, b⟩
  cases err <;> simp

theorem addRec_joined (g : Group) (r : StatRec) :
    (g.addRec r.1 r.2).joined = g.joined + if usable r && (breakdownOf r).joined then 1 else 0 := by
  rw [Group.addRec, usable, breakdownOf]
  rcases ntpBreakdown r.1 r.2 with ⟨err, b⟩
  by_cases he : err = .incompleteHost
  · simp [he]
  · by_cases hj : b.joined = true <;> simp [he, hj]

theorem addRec_postEstimated (g : Group) (r : StatRec) :
    (g.addRec r.1 r.2).postEstimated =
      g.postEstimated + if usable r && (breakdownOf r).postEstimated then 1 else 0 := by
  rw [Group.addRec, usable, breakdownOf]
  rcases ntpBreakdown r.1 r.2 with ⟨err, b⟩
  by_cases he : err = .incompleteHost
  · simp [he]
  · by_cases hj : b.postEstimated = true <;> simp [he, hj]

theorem addRec_spdkTarget (g : Group) (r : StatRec) :
    (g.addRec r.1 r.2).spdkTarget = (g.spdkTarget || r.2.any fun t => t.hdr.has ntpFSpdk) := by
  simp only [Group.addRec]
  split_ifs <;> rfl

/-- The samples of queue lengths that a record gives. -/
def queueSamples (r : StatRec) (m : QueueMetric) : List S64 :=
  if usable r then pushQueues r.1 r.2 (breakdownOf r).joined (fun _ => []) m else []

theorem pushIf_eq (p : Bool) (v : List S64) (x : S64) : pushIf p v x = v ++ pushIf p [] x := by
  cases p <;> simp [pushIf]

theorem addRec_queue (g : Group) (r : StatRec) (m : QueueMetric) :
    (g.addRec r.1 r.2).queue m = g.queue m ++ queueSamples r m := by
  rw [Group.addRec, queueSamples, usable, breakdownOf]
  rcases ntpBreakdown r.1 r.2 with ⟨err, b⟩
  by_cases he : err = .incompleteHost
  · simp [he]
  · simp only [he, ne_eq, not_false_eq_true, decide_true, if_false, if_true]
    cases m with
    | hostUnsent | hostInflight => exact pushIf_eq _ _ _
    | tgtOutstanding | tgtRespQueue =>
      cases hr : r.2 with
      | none => simp [pushQueues]
      | some t => exact pushIf_eq _ _ _

/-! ## A group made of given records -/

section Made

variable (k : GroupKey) (recs : List StatRec)

theorem made_records : (Group.addAll { key := k } recs).records = recs.length := by
  rw [addAll_counter Group.records (fun _ => true) (fun g r => addRec_records g r.1 r.2)]
  simp

theorem made_badHost : (Group.addAll { key := k } recs).badHost = recs.countP fun r => !usable r := by
  rw [addAll_counter Group.badHost _ addRec_badHost]
  exact Nat.zero_add _

theorem made_badTarget : (Group.addAll { key := k } recs).badTarget = recs.countP targetLeftOut := by
  rw [addAll_counter Group.badTarget _ addRec_badTarget]
  exact Nat.zero_add _

theorem made_joined :
    (Group.addAll { key := k } recs).joined = recs.countP fun r => usable r && (breakdownOf r).joined := by
  rw [addAll_counter Group.joined _ addRec_joined]
  exact Nat.zero_add _

theorem made_postEstimated : (Group.addAll { key := k } recs).postEstimated =
    recs.countP fun r => usable r && (breakdownOf r).postEstimated := by
  rw [addAll_counter Group.postEstimated _ addRec_postEstimated]
  exact Nat.zero_add _

theorem made_comp_length (c : Comp) : ((Group.addAll { key := k } recs).comp c).length =
    recs.countP fun r => usable r && (breakdownOf r).valid c := by
  rw [addAll_comp, List.nil_append, List.length_map, List.filter_filter, List.countP_eq_length_filter]
  simp only [Bool.and_comm]

theorem made_stage_length (s : Stage) : ((Group.addAll { key := k } recs).stage s).length =
    recs.countP fun r => usable r && (breakdownOf r).stageValid s := by
  rw [addAll_stage, List.nil_append, List.length_map, List.filter_filter, List.countP_eq_length_filter]
  simp only [Bool.and_comm]

end Made

/-! ## What the validity bits of a record say -/

/-- The flags and validity bits of a usable record. -/
structure BitsAgree (b : Breakdown) : Prop where
  e2e : b.valid .e2e = true
  net : b.valid .net = b.joined
  tgtBe : b.valid .tgtBe = b.joined
  remote : b.valid .remote = !b.joined
  s1 : b.stageValid .s1 = b.valid .blkSub
  s2 : b.stageValid .s2 = true
  s3s5 : b.stageValid .s3s5 = b.joined
  s6 : b.stageValid .s6 = b.joined
  s7s9 : b.stageValid .s7s9 = b.joined

theorem Shaped.bitsAgree {b : Breakdown} (hb : Shaped b) : BitsAgree (stages b) := by
  have hstage := stages_stageValid hb.host.noStage
  have he2e := hb.host.host .e2e rfl
  cases hj : b.joined with
  | true =>
    have hparts := joined_parts hb hj
    have hnet := (hb.joined hj).target .net rfl
    have hbe := (hb.joined hj).target .tgtBe rfl
    have hremote := (hb.joined hj).remote
    constructor <;> simp [stages_valid, stages_joined, hstage, hparts, hj, he2e, hnet, hbe, hremote]
  | false =>
    have hparts := unjoined_parts hb hj
    have hnet := (hb.unjoined hj).target .net rfl
    have hbe := (hb.unjoined hj).target .tgtBe rfl
    have hremote := (hb.unjoined hj).remote
    constructor <;> simp [stages_valid, stages_joined, hstage, hparts, hj, he2e, hnet, hbe, hremote]

theorem bitsAgree_of_usable {r : StatRec} (hu : usable r = true) : BitsAgree (breakdownOf r) := by
  obtain ⟨b, hb, heq⟩ := ntpBreakdown_shaped r.1 r.2 (of_decide_eq_true hu)
  rw [breakdownOf, heq]
  exact hb.bitsAgree

/-- A target record that was left out did not make its record a joined one. -/
theorem unjoined_of_targetLeftOut {r : StatRec} (hr : targetLeftOut r = true) :
    usable r = true ∧ (breakdownOf r).joined = false := by
  have herr : (ntpBreakdown r.1 r.2).1 = .incompleteTarget := of_decide_eq_true hr
  refine ⟨decide_eq_true (by rw [herr]; decide), ?_⟩
  rcases ntpBreakdown_outcome r.1 with hbad | ⟨b, hb⟩
  · rw [hbad] at herr
    cases herr
  · cases ht : r.2 with
    | none =>
      rw [ht, hb.alone] at herr
      cases herr
    | some t =>
      rw [ht] at herr
      rcases hb.with_target t with hw | ⟨b', hw⟩
      · rw [breakdownOf, ht, hw]
        exact (stages_joined b).trans hb.joined
      · rw [hw] at herr
        cases herr

/-- The posting of a response is estimated only for a target record that is used. -/
theorem joined_of_postEstimated {r : StatRec} (hr : (breakdownOf r).postEstimated = true) :
    (breakdownOf r).joined = true := by
  rw [breakdownOf] at hr ⊢
  rcases ntpBreakdown_outcome r.1 with hbad | ⟨b, hb⟩
  · rw [hbad] at hr
    cases hr
  · have hnot : (stages b).postEstimated ≠ true := by
      rw [stages_postEstimated, hb.postEstimated]
      exact Bool.false_ne_true
    cases ht : r.2 with
    | none =>
      rw [ht, hb.alone] at hr
      exact absurd hr hnot
    | some t =>
      rw [ht] at hr
      rcases hb.with_target t with hw | ⟨b', hw⟩
      · rw [hw] at hr
        exact absurd hr hnot
      · rw [hw]
        exact stages_joined _

/-! ## The counters and the vectors fit together -/

/-- What holds in every group. -/
structure Group.Consistent (g : Group) : Prop where
  records : g.records = g.badHost + (g.comp .e2e).length
  net : g.joined = (g.comp .net).length
  tgtBe : g.joined = (g.comp .tgtBe).length
  s3s5 : g.joined = (g.stage .s3s5).length
  s6 : g.joined = (g.stage .s6).length
  s7s9 : g.joined = (g.stage .s7s9).length
  joined : g.joined ≤ (g.comp .e2e).length
  remote : (g.comp .remote).length = (g.comp .e2e).length - g.joined
  badTarget : g.badTarget ≤ (g.comp .remote).length
  postEstimated : g.postEstimated ≤ g.joined
  s1 : (g.stage .s1).length = (g.comp .blkSub).length
  s1_le : (g.stage .s1).length ≤ (g.stage .s2).length
  s2 : (g.stage .s2).length = (g.comp .e2e).length
  -- print_group's `usable = records - bad_host`
  usable : g.badHost ≤ g.records

/-- Two counts agree where every usable record answers alike. -/
theorem countP_usable {p q : Breakdown → Bool} (hpq : ∀ b, BitsAgree b → p b = q b) (recs : List StatRec) :
    (recs.countP fun r => usable r && p (breakdownOf r)) =
      recs.countP fun r => usable r && q (breakdownOf r) := by
  apply List.countP_congr
  intro r _
  by_cases hu : usable r = true
  · rw [hpq _ (bitsAgree_of_usable hu)]
  · simp [hu]

theorem countP_usable_split (p : Breakdown → Bool) (recs : List StatRec) :
    (recs.countP fun r => usable r && true) = (recs.countP fun r => usable r && p (breakdownOf r)) +
      recs.countP fun r => usable r && !p (breakdownOf r) := by
  induction recs with
  | nil => rfl
  | cons r recs ih =>
    simp only [List.countP_cons]
    cases usable r <;> cases p (breakdownOf r) <;> simp at ih ⊢ <;> omega

theorem countP_usable_add (recs : List StatRec) :
    recs.length = (recs.countP fun r => !usable r) + recs.countP fun r => usable r && true := by
  induction recs with
  | nil => rfl
  | cons r recs ih =>
    simp only [List.countP_cons, List.length_cons]
    cases usable r <;> simp at ih ⊢ <;> omega

theorem made_consistent (k : GroupKey) (recs : List StatRec) :
    (Group.addAll { key := k } recs).Consistent := by
  have he2e : ((Group.addAll { key := k } recs).comp .e2e).length = recs.countP fun r => usable r && true :=
    (made_comp_length k recs .e2e).trans (countP_usable (fun _ hb => hb.e2e) recs)
  have hjoined := made_joined k recs
  have hremote : ((Group.addAll { key := k } recs).comp .remote).length =
      recs.countP fun r => usable r && !(breakdownOf r).joined :=
    (made_comp_length k recs .remote).trans (countP_usable (fun _ hb => hb.remote) recs)
  have hs2 : ((Group.addAll { key := k } recs).stage .s2).length = recs.countP fun r => usable r && true :=
    (made_stage_length k recs .s2).trans (countP_usable (fun _ hb => hb.s2) recs)
  have hs1 : ((Group.addAll { key := k } recs).stage .s1).length =
      recs.countP fun r => usable r && (breakdownOf r).valid .blkSub :=
    (made_stage_length k recs .s1).trans (countP_usable (fun _ hb => hb.s1) recs)
  have hsplit := countP_usable_split Breakdown.joined recs
  have htotal := countP_usable_add recs
  have hrecords := made_records k recs
  have hbad := made_badHost k recs
  constructor
  · omega
  · exact hjoined.trans ((made_comp_length k recs .net).trans (countP_usable (fun _ hb => hb.net) recs)).symm
  · exact hjoined.trans ((made_comp_length k recs .tgtBe).trans (countP_usable (fun _ hb => hb.tgtBe) recs)).symm
  · exact hjoined.trans ((made_stage_length k recs .s3s5).trans (countP_usable (fun _ hb => hb.s3s5) recs)).symm
  · exact hjoined.trans ((made_stage_length k recs .s6).trans (countP_usable (fun _ hb => hb.s6) recs)).symm
  · exact hjoined.trans ((made_stage_length k recs .s7s9).trans (countP_usable (fun _ hb => hb.s7s9) recs)).symm
  · omega
  · omega
  · rw [hremote, made_badTarget]
    apply List.countP_mono_left
    intro r _ hr
    obtain ⟨hu, hj⟩ := unjoined_of_targetLeftOut hr
    rw [hu, hj]
    rfl
  · rw [hjoined, made_postEstimated]
    apply List.countP_mono_left
    intro r _ hr
    obtain ⟨hu, hp⟩ := Bool.and_eq_true_iff.mp hr
    rw [hu, joined_of_postEstimated hp]
    rfl
  · exact hs1.trans (made_comp_length k recs .blkSub).symm
  · rw [hs1, hs2]
    apply List.countP_mono_left
    intro r _ hr
    rw [(Bool.and_eq_true_iff.mp hr).1]
    rfl
  · rw [hs2, he2e]
  · omega

/-- After any sequence of calls of `ntp_stats_add` on fresh statistics, the groups have distinct keys,
every call is counted in one of them, and in each of them counters and vectors fit together. -/
theorem groups_consistent (byType bySize bySession : Bool) (recs : List StatRec) :
    ((statsRun (ntpStatsInit byType bySize bySession) recs).groups.map Group.key).Nodup ∧
    ((statsRun (ntpStatsInit byType bySize bySession) recs).groups.map Group.records).sum = recs.length ∧
    ∀ g ∈ (statsRun (ntpStatsInit byType bySize bySession) recs).groups, g.Consistent := by
  have hrun : GroupsOf (ntpStatsInit byType bySize bySession) recs
      (statsRun (ntpStatsInit byType bySize bySession) recs) := groupsOf_run rfl recs
  refine ⟨hrun.distinct, ?_, fun g hg => ?_⟩
  · rw [sum_records_run]
    exact Nat.zero_add _
  · rw [hrun.made g hg]
    exact made_consistent _ _

end Ntprof
