import Ntprof.Proofs.StageProofs

/-!
# What a target record can do to a breakdown

`ntp_breakdown` either uses the target record as a whole or reports it as incomplete and leaves the
host's breakdown as it is. Which of the two it does depends on the transport.
-/

namespace Ntprof

/-! ## Used or left alone -/

theorem rdmaJoin_cases (h : HostRec) (t : TgtRec) (b : Breakdown) :
    rdmaJoin h (some t) b = (.incompleteTarget, b) ∨
      ∃ b' : Breakdown, rdmaJoin h (some t) b = (.ok, { b' with joined := true }) := by
  simp only [rdmaJoin]
  split_ifs with hkind hused
  · exact Or.inr ⟨_, rfl⟩
  · rcases rdmaTargetSide_cases t b with hp | ⟨T, hp | hp⟩
    · rw [hp]
      exact Or.inl rfl
    all_goals
      rw [hp] at hused
      exact absurd rfl hused
  · exact Or.inl rfl

theorem tcpJoin_cases (t : TgtRec) (b : Breakdown) :
    tcpJoin (some t) b = (.incompleteTarget, b) ∨
      ∃ b' : Breakdown, tcpJoin (some t) b = (.ok, { b' with joined := true }) := by
  simp only [tcpJoin]
  split_ifs
  · exact Or.inr ⟨_, rfl⟩
  · exact Or.inl rfl

theorem stages_postEstimated (b : Breakdown) : (stages b).postEstimated = b.postEstimated := by
  simp only [stages, stage]
  split_ifs <;> rfl

theorem stages_ioClass (b : Breakdown) : (stages b).ioClass = b.ioClass := by
  simp only [stages, stage]
  split_ifs <;> rfl

theorem commonHost_postEstimated (h : HostRec) (b : Breakdown) :
    (commonHost h b).postEstimated = b.postEstimated := by
  simp only [commonHost]
  split_ifs <;> rfl

theorem readDataPhase_postEstimated (h : HostRec) (b : Breakdown) :
    (readDataPhase h b).postEstimated = b.postEstimated := by
  rcases readDataPhase_cases h b with hp | ⟨busy, hp⟩ <;> rw [hp] <;> rfl

theorem hostSide_postEstimated (h : HostRec) (b : Breakdown) :
    (hostSide h b).postEstimated = b.postEstimated := by
  have hc := commonHost_postEstimated h b
  simp only [hostSide, commonHost_ioClass]
  cases b.ioClass with
  | read =>
    simp only
    rw [readDataPhase_postEstimated]
    exact hc
  | writeInline | writeR2t => exact hc

theorem rdmaHostSide_postEstimated (h : HostRec) (b : Breakdown) :
    (rdmaHostSide h b).postEstimated = b.postEstimated := commonHost_postEstimated h b

/-- The host's breakdown of a record that is not incomplete, and what each target record makes of it. -/
structure HostOutcome (h : HostRec) (b : Breakdown) : Prop where
  joined : b.joined = false
  postEstimated : b.postEstimated = false
  alone : ntpBreakdown h none = (.ok, stages b)
  with_target : ∀ t, ntpBreakdown h (some t) = (.incompleteTarget, stages b) ∨
    ∃ b' : Breakdown, ntpBreakdown h (some t) = (.ok, stages { b' with joined := true })

/-- An incomplete host record is incomplete with every target record; any other one has its outcome. -/
theorem ntpBreakdown_outcome (h : HostRec) :
    (∀ t, ntpBreakdown h t = (.incompleteHost, { ioClass := ntpIoClassOf h })) ∨
      ∃ b, HostOutcome h b := by
  by_cases hr : h.hdr.transport = ntpTrRdma
  · by_cases hc : (!haveAll h.ts hostReqRdma) = true
    · left
      intro t
      simp only [ntpBreakdown, if_pos hr, if_pos hc]
    · right
      have heq : ∀ t, ntpBreakdown h t =
          ((rdmaJoin h t (rdmaHostSide h { ioClass := ntpIoClassOf h })).1,
            stages (rdmaJoin h t (rdmaHostSide h { ioClass := ntpIoClassOf h })).2) := by
        intro t
        simp only [ntpBreakdown, if_pos hr, if_neg hc]
      refine ⟨rdmaHostSide h { ioClass := ntpIoClassOf h }, rdmaHostSide_joined h _,
        rdmaHostSide_postEstimated h _, heq none, fun t => ?_⟩
      rw [heq]
      rcases rdmaJoin_cases h t (rdmaHostSide h { ioClass := ntpIoClassOf h }) with hj | ⟨b', hj⟩
      · exact Or.inl (by rw [hj])
      · exact Or.inr ⟨b', by rw [hj]⟩
  · by_cases hc : (!hostComplete h (ntpIoClassOf h)) = true
    · left
      intro t
      simp only [ntpBreakdown, if_neg hr, if_pos hc]
    · right
      have heq : ∀ t, ntpBreakdown h t =
          ((tcpJoin t (hostSide h { ioClass := ntpIoClassOf h })).1,
            stages (tcpJoin t (hostSide h { ioClass := ntpIoClassOf h })).2) := by
        intro t
        simp only [ntpBreakdown, if_neg hr, if_neg hc]
      refine ⟨hostSide h { ioClass := ntpIoClassOf h }, hostSide_joined h _,
        hostSide_postEstimated h _, heq none, fun t => ?_⟩
      rw [heq]
      rcases tcpJoin_cases t (hostSide h { ioClass := ntpIoClassOf h }) with hj | ⟨b', hj⟩
      · exact Or.inl (by rw [hj])
      · exact Or.inr ⟨b', by rw [hj]⟩

/-- A target record that is not used leaves no trace, and a host record that is not complete has no
component and no stage, whatever its target record is. -/
theorem unusable_records_change_nothing :
    (∀ (h : HostRec) (t : TgtRec), (ntpBreakdown h (some t)).1 = .incompleteTarget →
      ntpBreakdown h none = (.ok, (ntpBreakdown h (some t)).2)) ∧
    (∀ (h : HostRec) (t : Option TgtRec), (ntpBreakdown h none).1 = .incompleteHost →
      (ntpBreakdown h t).1 = .incompleteHost ∧ (∀ c, (ntpBreakdown h t).2.valid c = false) ∧
        ∀ s, (ntpBreakdown h t).2.stageValid s = false) := by
  constructor
  · intro h t herr
    rcases ntpBreakdown_outcome h with hbad | ⟨b, hb⟩
    · rw [hbad] at herr
      cases herr
    · rcases hb.with_target t with ht | ⟨b', ht⟩
      · rw [ht, hb.alone]
      · rw [ht] at herr
        cases herr
  · intro h t herr
    rcases ntpBreakdown_outcome h with hbad | ⟨b, hb⟩
    · rw [hbad t]
      exact ⟨rfl, fun _ => rfl, fun _ => rfl⟩
    · rw [hb.alone] at herr
      cases herr

/-! ## Records of one kind -/

/-- The target record is of the host record's own kind: its transport, its direction and, over TCP, its
use of R2T. -/
structure SameKind (h : HostRec) (t : TgtRec) : Prop where
  transport : h.hdr.transport = t.hdr.transport
  direction : h.hdr.has ntpFWrite = t.hdr.has ntpFWrite
  r2t : h.hdr.transport = ntpTrTcp → (t.hdr.has ntpFR2t = true ↔ ntpIoClassOf h = .writeR2t)

/-- The tests the TCP path makes before it uses a target record. -/
structure TcpAccepts (h : HostRec) (t : TgtRec) : Prop where
  path : h.hdr.transport ≠ ntpTrRdma
  host : hostComplete h (ntpIoClassOf h) = true
  r2t : t.hdr.has ntpFR2t = true ↔ ntpIoClassOf h = .writeR2t
  target : targetComplete t (ntpIoClassOf h) = true

theorem readDataPhase_ioClass (h : HostRec) (b : Breakdown) :
    (readDataPhase h b).ioClass = b.ioClass := by
  rcases readDataPhase_cases h b with hp | ⟨busy, hp⟩ <;> rw [hp] <;> rfl

theorem hostSide_ioClass (h : HostRec) (b : Breakdown) : (hostSide h b).ioClass = b.ioClass := by
  have hadd : ∀ c v, ((commonHost h b).add c v).ioClass = b.ioClass := fun _ _ => commonHost_ioClass h b
  simp only [hostSide, commonHost_ioClass]
  cases hb : b.ioClass with
  | read => simp only [readDataPhase_ioClass, set_ioClass, commonHost_ioClass, hb]
  | writeInline => simp only [set_ioClass, commonHost_ioClass, hb]
  | writeR2t => simp only [set_ioClass, hadd, hb]

/-- On the TCP path a target record is used where it passes the tests. -/
theorem joined_tcp {h : HostRec} (hr : h.hdr.transport ≠ ntpTrRdma) (t : TgtRec) :
    (ntpBreakdown h (some t)).2.joined = true ↔ TcpAccepts h t := by
  have hclass : (hostSide h { ioClass := ntpIoClassOf h }).ioClass = ntpIoClassOf h := hostSide_ioClass h _
  simp only [ntpBreakdown, if_neg hr]
  by_cases hc : hostComplete h (ntpIoClassOf h) = true
  · rw [if_neg (by simp [hc]), tcpJoin, hclass]
    dsimp only
    rw [stages_joined]
    constructor
    · intro hj
      split_ifs at hj with ha
      · rw [Bool.and_eq_true, beq_iff_eq] at ha
        exact ⟨hr, hc, by rw [ha.1, decide_eq_true_iff], ha.2⟩
      · rw [hostSide_joined] at hj
        cases hj
    · intro ha
      have hsame : (t.hdr.has ntpFR2t == decide (ntpIoClassOf h = .writeR2t)) = true := by
        rw [beq_iff_eq, Bool.eq_iff_iff, decide_eq_true_iff]
        exact ha.r2t
      rw [if_pos (by rw [hsame, ha.target]; rfl)]
  · rw [if_pos (by simp [hc])]
    exact ⟨fun hj => (by cases hj), fun ha => absurd ha.host hc⟩

/-- The RDMA path uses a target record only after it compared transport and direction. -/
theorem sameKind_of_joined_rdma {h : HostRec} (hr : h.hdr.transport = ntpTrRdma) {t : TgtRec}
    (hj : (ntpBreakdown h (some t)).2.joined = true) : SameKind h t := by
  have hc : ¬ (!haveAll h.ts hostReqRdma) = true := by
    intro hc
    simp only [ntpBreakdown, if_pos hr, if_pos hc] at hj
    cases hj
  simp only [ntpBreakdown, if_pos hr, if_neg hc, stages_joined, rdmaJoin] at hj
  split_ifs at hj with hkind hused
  · obtain ⟨hdir, htr⟩ := Bool.and_eq_true_iff.mp hkind
    have hwrite : h.hdr.has ntpFWrite = t.hdr.has ntpFWrite := by
      revert hdir
      cases h.hdr.has ntpFWrite <;> cases t.hdr.has ntpFWrite <;> simp
    refine ⟨hr.trans (eq_of_beq htr).symm, hwrite, fun htcp => ?_⟩
    rw [hr] at htcp
    cases htcp
  · rcases rdmaTargetSide_cases t (rdmaHostSide h { ioClass := ntpIoClassOf h }) with hp | ⟨T, hp | hp⟩
    · rw [hp, rdmaHostSide_joined] at hj
      cases hj
    all_goals
      rw [hp] at hused
      exact absurd rfl hused
  · rw [rdmaHostSide_joined] at hj
    cases hj

/-- A joined target record is of the host record's kind exactly where the TCP path's tests do not let
one of another transport or direction pass. -/
theorem joined_sameKind_iff (h : HostRec) (t : TgtRec) :
    ((ntpBreakdown h (some t)).2.joined = true → SameKind h t) ↔
      ¬ (TcpAccepts h t ∧ (h.hdr.transport ≠ t.hdr.transport ∨
        h.hdr.has ntpFWrite ≠ t.hdr.has ntpFWrite)) := by
  by_cases hr : h.hdr.transport = ntpTrRdma
  · constructor
    · rintro - ⟨ha, -⟩
      exact ha.path hr
    · intro _ hj
      exact sameKind_of_joined_rdma hr hj
  · rw [joined_tcp hr]
    constructor
    · rintro hk ⟨ha, hd | hd⟩
      · exact hd (hk ha).transport
      · exact hd (hk ha).direction
    · intro hn ha
      have htr : h.hdr.transport = t.hdr.transport := by
        by_contra hd
        exact hn ⟨ha, Or.inl hd⟩
      have hdir : h.hdr.has ntpFWrite = t.hdr.has ntpFWrite := by
        by_contra hd
        exact hn ⟨ha, Or.inr hd⟩
      exact ⟨htr, hdir, fun _ => ha.r2t⟩

/-- A read of an NVMe/TCP host. -/
def tcpReadHost : HostRec :=
  { exampleReadHost with hdr := { kind := ntpRecHost, transport := ntpTrTcp } }

/-- An NVMe/RDMA target's record of a read. -/
def rdmaReadTarget : TgtRec where
  hdr := { kind := ntpRecTarget, transport := ntpTrRdma }
  ts
    | .cmdArr => 1010
    | .cmdProc => 1020
    | .exec => 1030
    | .complete => 1080
    | .c2hSent => 1090
    | .rspSent => 1090
    | .sendDone => 1120
    | _ => 0

/-- The two are joined. -/
theorem foreign_target_is_joined :
    ¬ ((ntpBreakdown tcpReadHost (some rdmaReadTarget)).2.joined = true →
      SameKind tcpReadHost rdmaReadTarget) := by
  intro h
  have hj : (ntpBreakdown tcpReadHost (some rdmaReadTarget)).2.joined = true := by
    rw [joined_tcp (by decide)]
    exact ⟨by decide, by decide, by decide, by decide⟩
  exact absurd (h hj).transport (by decide)

end Ntprof
