import Ntprof.Proofs.ModelProofs

/-!
# Proofs: the stages partition the latency

Which components are valid depends on the transport, the class and the plausibility of the stamps.
`HostParts` and `TargetParts` say which of them every record has; the others (the start, the data
phases) are extras that a stage counts where they are present. The stages are then the main
components put together in another order.
-/

namespace Ntprof

/-! ## The value of a stage -/

/-- The components a stage needs, in the tables of `stages`. -/
def Stage.parts : Stage → List Comp
  | .s1 => [.blkSub, .blkCmpl]
  | .s2 => [.trSub, .trCmpl]
  | .s3s5 => [.net, .tgtRx, .hostRx]
  | .s6 => [.tgtSub, .tgtCmpl]
  | .s7s9 => [.tgtBe]

/-- The components a stage counts where they are present. -/
def Stage.extras : Stage → List Comp
  | .s2 => [.hostData]
  | .s3s5 => [.hostWait, .tgtWait]
  | .s6 => [.tgtData]
  | _ => []

/-- The value `stage` computes for `s`. -/
def stageSum (b : Breakdown) (s : Stage) : S64 :=
  (s.parts.map b.comp).sum + ((s.extras.filter b.valid).map b.comp).sum

theorem stage_stageValid (b : Breakdown) (s x : Stage) (parts extras : List Comp) :
    (stage b s parts extras).stageValid x =
      if x = s ∧ parts.all b.valid then true else b.stageValid x := by
  unfold stage
  by_cases hp : parts.all b.valid = true
  · simp [hp, Function.update_apply]
  · simp [hp]

theorem stage_stage (b : Breakdown) (s x : Stage) (parts extras : List Comp) :
    (stage b s parts extras).stage x =
      if x = s ∧ parts.all b.valid then
        (parts.map b.comp).sum + ((extras.filter b.valid).map b.comp).sum
      else b.stage x := by
  unfold stage
  by_cases hp : parts.all b.valid = true
  · simp [hp, Function.update_apply]
  · simp [hp]

/-- A stage is valid when all of its parts are. -/
theorem stages_stageValid {b : Breakdown} (hb : ∀ s, b.stageValid s = false) (s : Stage) :
    (stages b).stageValid s = s.parts.all b.valid := by
  cases s <;> simp [stages, stage_stageValid, Stage.parts, hb]

theorem stages_stage {b : Breakdown} {s : Stage} (hs : s.parts.all b.valid = true) :
    (stages b).stage s = stageSum b s := by
  cases s <;> simp [stages, stage_stage, stageSum, Stage.parts, Stage.extras] at hs ⊢ <;> simp [hs]

/-! ## The components every record has -/

/-- A component that every complete host record has. -/
def Comp.ofHost (c : Comp) : Bool :=
  c == .trSub || c == .trCmpl || c == .blkCmpl || c == .hostRx || c == .e2e

/-- A component that every joined record has. -/
def Comp.ofJoin (c : Comp) : Bool :=
  c == .net || c == .tgtRx || c == .tgtSub || c == .tgtBe || c == .tgtCmpl

/-- The host's components are there, and no stage is yet. -/
structure HostParts (b : Breakdown) : Prop where
  host : ∀ c : Comp, c.ofHost = true → b.valid c = true
  noStage : ∀ s, b.stageValid s = false

/-- The target's components have taken the place of the remote one. -/
structure TargetParts (b : Breakdown) : Prop where
  remote : b.valid .remote = false
  target : ∀ c : Comp, c.ofJoin = true → b.valid c = true

theorem HostParts.congr {b b' : Breakdown} (hb : HostParts b) (hv : b'.valid = b.valid)
    (hs : b'.stageValid = b.stageValid) : HostParts b' :=
  ⟨by rw [hv]; exact hb.host, by rw [hs]; exact hb.noStage⟩

theorem TargetParts.congr {b b' : Breakdown} (hb : TargetParts b) (hv : b'.valid = b.valid) :
    TargetParts b' :=
  ⟨by rw [hv]; exact hb.remote, by rw [hv]; exact hb.target⟩

/-- Setting a component leaves the others valid. -/
theorem HostParts.set {b : Breakdown} (hb : HostParts b) (c : Comp) (v : S64) :
    HostParts (b.set c v) := by
  refine ⟨fun x hx => ?_, hb.noStage⟩
  rw [set_valid]
  split_ifs
  · rfl
  · exact hb.host x hx

@[simp] theorem set_stageValid (b : Breakdown) (c : Comp) (v : S64) :
    (b.set c v).stageValid = b.stageValid := rfl

theorem commonHost_stageValid (h : HostRec) (b : Breakdown) :
    (commonHost h b).stageValid = b.stageValid := by
  simp only [commonHost]
  split_ifs <;> rfl

/-- The common host part sets its own components. -/
theorem commonHost_valid_own (h : HostRec) (b : Breakdown) {c : Comp}
    (hc : c = .trSub ∨ c = .blkCmpl ∨ c = .e2e) : (commonHost h b).valid c = true := by
  simp only [commonHost]
  rcases hc with rfl | rfl | rfl <;> split_ifs <;> simp

/-- The host side is complete once the receive path and the completion are set. -/
theorem HostParts.of_commonHost (h : HostRec) {a b : Breakdown} (ha : ∀ s, a.stageValid s = false)
    (hs : b.stageValid = (commonHost h a).stageValid)
    (hv : ∀ c, (commonHost h a).valid c = true ∨ c = .hostRx ∨ c = .trCmpl → b.valid c = true) :
    HostParts b := by
  constructor
  · intro c hc
    cases c with
    | trSub | blkCmpl | e2e => exact hv _ (Or.inl (commonHost_valid_own h a (by simp)))
    | hostRx | trCmpl => exact hv _ (by simp)
    | _ => simp [Comp.ofHost] at hc
  · intro s
    rw [hs, commonHost_stageValid]
    exact ha s

theorem readDataPhase_stageValid (h : HostRec) (b : Breakdown) :
    (readDataPhase h b).stageValid = b.stageValid := by
  rcases readDataPhase_cases h b with hp | ⟨busy, hp⟩ <;> rw [hp] <;> rfl

/-- The data phase of a read keeps the components it finds and adds the completion. -/
theorem readDataPhase_keeps (h : HostRec) (b : Breakdown) {c : Comp}
    (hc : b.valid c = true ∨ c = .trCmpl) : (readDataPhase h b).valid c = true := by
  rcases readDataPhase_cases h b with hp | ⟨busy, hp⟩ <;> rw [hp] <;> rcases hc with hc | hc <;>
    simp [hc]

theorem hostSide_parts (h : HostRec) {b : Breakdown} (hb : ∀ s, b.stageValid s = false) :
    HostParts (hostSide h b) := by
  simp only [hostSide, commonHost_ioClass]
  cases b.ioClass with
  | read =>
    refine .of_commonHost h hb (readDataPhase_stageValid h _) fun c hc => ?_
    apply readDataPhase_keeps
    rcases hc with hc | hc | hc <;> simp [hc]
  | writeInline =>
    refine .of_commonHost h hb rfl fun c hc => ?_
    rcases hc with hc | hc | hc <;> simp [hc]
  | writeR2t =>
    rw [add_eq_set (commonHost_valid_trSub h b)]
    refine .of_commonHost h hb rfl fun c hc => ?_
    rcases hc with hc | hc | hc <;> simp [hc]

theorem rdmaHostSide_parts (h : HostRec) {b : Breakdown} (hb : ∀ s, b.stageValid s = false) :
    HostParts (rdmaHostSide h b) := by
  refine .of_commonHost h hb rfl fun c hc => ?_
  rcases hc with hc | hc | hc <;> simp [rdmaHostSide, hc]

/-! ## The target side -/

theorem backendDetails_stageValid (T : TgtTs → U64) (b : Breakdown) :
    (backendDetails T b).stageValid = b.stageValid := by
  simp only [backendDetails]
  split_ifs <;> rfl

theorem backendDetails_keeps (T : TgtTs → U64) {b : Breakdown} {c : Comp} (hc : b.valid c = true) :
    (backendDetails T b).valid c = true := by
  simp only [backendDetails]
  split_ifs <;> simp [hc]

/-- A component that is no detail of the back end is as it was. -/
theorem backendDetails_valid (T : TgtTs → U64) (b : Breakdown) {c : Comp} (h1 : c ≠ .tgtBeSub)
    (h2 : c ≠ .tgtDev) (h3 : c ≠ .tgtBeCmpl) : (backendDetails T b).valid c = b.valid c := by
  simp only [backendDetails]
  split_ifs <;> simp [h1, h2, h3]

/-- Both target sides end the same way: the remote component goes, the network's comes, and the
details of the back end may follow. -/
theorem parts_of_split (T : TgtTs → U64) (residence : S64) {b : Breakdown} (hb : HostParts b)
    (ht : ∀ c : Comp, c.ofJoin = true → c ≠ .net → b.valid c = true) :
    HostParts (backendDetails T (splitRemote residence b)) ∧
      TargetParts (backendDetails T (splitRemote residence b)) := by
  refine ⟨⟨fun c hc => ?_, fun s => ?_⟩, ⟨?_, fun c hc => ?_⟩⟩
  · apply backendDetails_keeps
    have hne : c ≠ .remote ∧ c ≠ .net := by cases c <;> simp_all [Comp.ofHost]
    rw [splitRemote_valid _ _ hne.1 hne.2]
    exact hb.host c hc
  · rw [backendDetails_stageValid]
    exact hb.noStage s
  · rw [backendDetails_valid] <;> simp [splitRemote]
  · apply backendDetails_keeps
    by_cases hn : c = .net
    · simp [splitRemote, hn]
    · have hne : c ≠ .remote := by cases c <;> simp_all [Comp.ofJoin]
      rw [splitRemote_valid _ _ hne hn]
      exact ht c hc hn

theorem targetSide_parts (t : TgtRec) {b : Breakdown} (hb : HostParts b) :
    HostParts (targetSide t b) ∧ TargetParts (targetSide t b) := by
  simp only [targetSide, set_ioClass]
  cases b.ioClass with
  | read | writeInline =>
    apply parts_of_split
    · exact (((hb.set _ _).set _ _).set _ _).set _ _
    · intro c hc hn
      cases c <;> simp_all [Comp.ofJoin]
  | writeR2t =>
    simp only
    rcases writeDataPhase_cases t ((b.set .tgtBe (d (t.ts .complete) (t.ts .exec))).set .tgtRx
      (d (t.ts .cmdProc) (t.ts .cmdArr) + d (t.ts .dataProc) (t.ts .dataArr))) with hp | ⟨busy, hp⟩
    · rw [hp]
      apply parts_of_split
      · exact (((hb.set _ _).set _ _).set _ _).set _ _
      · intro c hc hn
        cases c <;> simp_all [Comp.ofJoin]
    · rw [hp]
      apply parts_of_split
      · exact (((((hb.set _ _).set _ _).set _ _).set _ _).set _ _).set _ _
      · intro c hc hn
        cases c <;> simp_all [Comp.ofJoin]

theorem rdmaSubmission_parts (fetch : Bool) (T : TgtTs → U64) {b : Breakdown} (hb : HostParts b) :
    HostParts (rdmaSubmission fetch T b) := by
  cases fetch with
  | false => exact hb.set _ _
  | true =>
    have h1 := hb.set .tgtSub (d (T .r2tSent) (T .cmdProc) + d (T .exec) (T .dataProc))
    have h2 : HostParts { b.set .tgtSub (d (T .r2tSent) (T .cmdProc) + d (T .exec) (T .dataProc)) with
        ioClass := .writeR2t } := h1.congr rfl rfl
    exact h2.set _ _

theorem rdmaSubmission_tgtSub (fetch : Bool) (T : TgtTs → U64) (b : Breakdown) :
    (rdmaSubmission fetch T b).valid .tgtSub = true := by
  cases fetch <;> simp [rdmaSubmission]

theorem rdmaReadTransfer_parts (t : TgtRec) (T : TgtTs → U64) {b : Breakdown} (hb : HostParts b) :
    HostParts (rdmaReadTransfer t T b) := by
  unfold rdmaReadTransfer
  split_ifs
  · exact hb.set _ _
  · exact hb

theorem rdmaSplit_parts (t : TgtRec) (T : TgtTs → U64) {b : Breakdown} (hb : HostParts b) :
    HostParts (rdmaSplit t T b) ∧ TargetParts (rdmaSplit t T b) := by
  simp only [rdmaSplit]
  apply parts_of_split
  · exact ((rdmaReadTransfer_parts t T (rdmaSubmission_parts _ T (hb.set _ _))).set _ _).set _ _
  · intro c hc hn
    cases c <;>
      simp_all [Comp.ofJoin, rdmaReadTransfer_valid, rdmaSubmission_valid, rdmaSubmission_tgtSub]

/-! ## The shape of a breakdown -/

/-- What `ntp_breakdown` hands to `stages`: the host's components, and either the target's or one
remote component in their place. -/
structure Shaped (b : Breakdown) : Prop where
  host : HostParts b
  addsUp : AddsUp b
  joined : b.joined = true → TargetParts b
  unjoined : b.joined = false → HostForm b

theorem Shaped.of_host {b : Breakdown} (hp : HostParts b) (hf : HostForm b) (hs : AddsUp b)
    (hj : b.joined = false) : Shaped b where
  host := hp
  addsUp := hs
  joined h := by simp [hj] at h
  unjoined _ := hf

theorem rdmaJoin_shaped (h : HostRec) (t : Option TgtRec) {b : Breakdown} (hb : Shaped b)
    (hj : b.joined = false) : Shaped (rdmaJoin h t b).2 := by
  have hf := hb.unjoined hj
  cases t with
  | none => exact hb
  | some t =>
    simp only [rdmaJoin]
    split_ifs with h1 h2
    · -- the target record is used
      rcases rdmaTargetSide_cases t b with hp | ⟨T, hp | hp⟩
      · rw [hp] at h2
        cases h2
      all_goals
        have hs := rdmaTargetSide_addsUp t hf hb.addsUp
        rw [hp] at hs ⊢
      · have hp := rdmaSplit_parts t T hb.host
        exact ⟨hp.1.congr rfl rfl, hs.congr rfl rfl, fun _ => hp.2.congr rfl, fun hx => by cases hx⟩
      · have hp := rdmaSplit_parts t T (b := { b with postEstimated := true }) (hb.host.congr rfl rfl)
        exact ⟨hp.1.congr rfl rfl, hs.congr rfl rfl, fun _ => hp.2.congr rfl, fun hx => by cases hx⟩
    · rcases rdmaTargetSide_cases t b with hp | ⟨T, hp | hp⟩
      · rw [hp]
        exact hb
      all_goals
        rw [hp] at h2
        exact absurd rfl h2
    · exact hb

theorem tcpJoin_shaped (t : Option TgtRec) {b : Breakdown} (hb : Shaped b) (hj : b.joined = false) :
    Shaped (tcpJoin t b).2 := by
  have hs := tcpJoin_addsUp t (hb.unjoined hj) hb.addsUp
  cases t with
  | none => exact hb
  | some t =>
    simp only [tcpJoin] at hs ⊢
    split_ifs at hs ⊢
    · have hp := targetSide_parts t hb.host
      exact ⟨hp.1.congr rfl rfl, hs, fun _ => hp.2.congr rfl, fun hx => by cases hx⟩
    · exact hb

theorem commonHost_joined (h : HostRec) (b : Breakdown) :
    (commonHost h b).joined = b.joined := by
  simp only [commonHost]
  split_ifs <;> rfl

theorem readDataPhase_joined (h : HostRec) (b : Breakdown) :
    (readDataPhase h b).joined = b.joined := by
  rcases readDataPhase_cases h b with hp | ⟨busy, hp⟩ <;> rw [hp] <;> rfl

theorem hostSide_joined (h : HostRec) (b : Breakdown) : (hostSide h b).joined = b.joined := by
  have hc := commonHost_joined h b
  simp only [hostSide, commonHost_ioClass]
  cases b.ioClass with
  | read =>
    simp only
    rw [readDataPhase_joined]
    exact hc
  | writeInline | writeR2t => exact hc

theorem rdmaHostSide_joined (h : HostRec) (b : Breakdown) :
    (rdmaHostSide h b).joined = b.joined := commonHost_joined h b

theorem hostSide_shaped (h : HostRec) (c : IoClass) : Shaped (hostSide h { ioClass := c }) := by
  have hblank : ∀ x, ({ ioClass := c } : Breakdown).valid x = false := fun _ => rfl
  have hnone : ∀ s, ({ ioClass := c } : Breakdown).stageValid s = false := fun _ => rfl
  have hf := hostSide_form h hblank
  exact Shaped.of_host (hostSide_parts h hnone) hf ⟨hostSide_mainSum h hblank, hf.backendSplit⟩
    (hostSide_joined h _)

theorem rdmaHostSide_shaped (h : HostRec) (c : IoClass) : Shaped (rdmaHostSide h { ioClass := c }) := by
  have hblank : ∀ x, ({ ioClass := c } : Breakdown).valid x = false := fun _ => rfl
  have hnone : ∀ s, ({ ioClass := c } : Breakdown).stageValid s = false := fun _ => rfl
  have hf := rdmaHostSide_form h hblank
  exact Shaped.of_host (rdmaHostSide_parts h hnone) hf ⟨rdmaHostSide_mainSum h hblank, hf.backendSplit⟩
    (rdmaHostSide_joined h _)

/-- Unless the host record is incomplete, its breakdown is the stages of a shaped one. -/
theorem ntpBreakdown_shaped (h : HostRec) (t : Option TgtRec)
    (hok : (ntpBreakdown h t).1 ≠ .incompleteHost) :
    ∃ b, Shaped b ∧ (ntpBreakdown h t).2 = stages b := by
  revert hok
  simp only [ntpBreakdown]
  split_ifs
  · exact fun hok => absurd rfl hok
  · intro _
    exact ⟨_, rdmaJoin_shaped h t (rdmaHostSide_shaped h _) (rdmaHostSide_joined h _), rfl⟩
  · exact fun hok => absurd rfl hok
  · intro _
    exact ⟨_, tcpJoin_shaped t (hostSide_shaped h _) (hostSide_joined h _), rfl⟩

theorem stages_joined (b : Breakdown) : (stages b).joined = b.joined := by
  simp only [stages, stage]
  split_ifs <;> rfl

/-- A record whose breakdown is joined is complete. -/
theorem complete_of_joined {h : HostRec} {t : Option TgtRec}
    (hj : (ntpBreakdown h t).2.joined = true) : (ntpBreakdown h t).1 ≠ .incompleteHost := by
  intro he
  revert hj
  simp only [ntpBreakdown] at he ⊢
  split_ifs at he ⊢
  · simp
  · exfalso
    revert he
    cases t with
    | none => simp [rdmaJoin]
    | some t =>
      simp only [rdmaJoin]
      split_ifs <;> simp
  · simp
  · exfalso
    revert he
    cases t with
    | none => simp [tcpJoin]
    | some t =>
      simp only [tcpJoin]
      split_ifs <;> simp

/-! ## The stages of a shaped breakdown -/

/-- An extra counts where it is present. -/
def extra (b : Breakdown) (c : Comp) : S64 := if b.valid c then b.comp c else 0

theorem mainSum_expand (b : Breakdown) :
    mainSum b = extra b .blkSub + extra b .trSub + extra b .net + extra b .tgtRx + extra b .tgtSub +
      extra b .tgtWait + extra b .tgtData + extra b .tgtBe + extra b .tgtCmpl + extra b .hostRx +
      extra b .hostWait + extra b .hostData + extra b .trCmpl + extra b .blkCmpl + extra b .remote := by
  rw [mainSum, list_sum_filter]
  simp only [Comp.all, List.map_cons, List.map_nil, List.sum_cons, List.sum_nil, weight, extra, Comp.main,
    ntpComps]
  simp
  ring

theorem stageSum_eq (b : Breakdown) (s : Stage) :
    stageSum b s = (s.parts.map b.comp).sum + (s.extras.map (extra b)).sum := by
  have hx : ∀ l : List Comp, ((l.filter b.valid).map b.comp).sum = (l.map (extra b)).sum := by
    intro l
    induction l with
    | nil => rfl
    | cons c l ih =>
      by_cases hc : b.valid c = true
      · simp [hc, ih, extra]
      · simp [hc, ih, extra]
  rw [stageSum, hx]

/-- The stages a joined breakdown has: all of them, but for the first one without a start. -/
theorem joined_parts {b : Breakdown} (hb : Shaped b) (hj : b.joined = true) (s : Stage) :
    s.parts.all b.valid = (b.valid .blkSub || decide (s ≠ .s1)) := by
  have hh := hb.host.host
  have ht := (hb.joined hj).target
  have h1 := hh .trSub rfl
  have h2 := hh .trCmpl rfl
  have h3 := hh .hostRx rfl
  have h4 := hh .blkCmpl rfl
  have h5 := ht .net rfl
  have h6 := ht .tgtRx rfl
  have h7 := ht .tgtSub rfl
  have h8 := ht .tgtBe rfl
  have h9 := ht .tgtCmpl rfl
  cases s <;> simp [Stage.parts, *]

/-- The stages an unjoined breakdown has: those of the host alone. -/
theorem unjoined_parts {b : Breakdown} (hb : Shaped b) (hj : b.joined = false) (s : Stage) :
    s.parts.all b.valid = (decide (s = .s2) || (decide (s = .s1) && b.valid .blkSub)) := by
  have hh := hb.host.host
  have ht := (hb.unjoined hj).target
  have h1 := hh .trSub rfl
  have h2 := hh .trCmpl rfl
  have h4 := hh .blkCmpl rfl
  have h5 := ht .net rfl
  have h7 := ht .tgtSub rfl
  have h8 := ht .tgtBe rfl
  cases s <;> simp [Stage.parts, *]

/-- The host block layer's share of the latency; without a start it is the completion alone. -/
def blkShare (b : Breakdown) : S64 := extra b .blkSub + b.comp .blkCmpl

theorem stageSum_s1 {b : Breakdown} (hs : b.valid .blkSub = true) : stageSum b .s1 = blkShare b := by
  simp [stageSum_eq, Stage.parts, Stage.extras, blkShare, extra, hs]

/-- Joined, the latency is the block layer's share and the four other stages. -/
theorem joined_sum {b : Breakdown} (hb : Shaped b) (hj : b.joined = true) :
    blkShare b + stageSum b .s2 + stageSum b .s3s5 + stageSum b .s6 + stageSum b .s7s9 =
      b.comp .e2e := by
  have hh := hb.host.host
  have ht := (hb.joined hj).target
  have hr := (hb.joined hj).remote
  have hx : ∀ c, b.valid c = true → extra b c = b.comp c := fun c hc => by simp [extra, hc]
  have hm := mainSum_expand b
  rw [hb.addsUp.1, hx .trSub (hh _ rfl), hx .net (ht _ rfl), hx .tgtRx (ht _ rfl),
    hx .tgtSub (ht _ rfl), hx .tgtBe (ht _ rfl), hx .tgtCmpl (ht _ rfl), hx .hostRx (hh _ rfl),
    hx .trCmpl (hh _ rfl), hx .blkCmpl (hh _ rfl)] at hm
  rw [hm]
  simp [stageSum_eq, Stage.parts, Stage.extras, blkShare, extra, hr]
  ring

/-- Not joined, the network and the target are the one remote component. -/
theorem unjoined_sum {b : Breakdown} (hb : Shaped b) (hj : b.joined = false) :
    blkShare b + stageSum b .s2 + b.comp .hostRx + extra b .hostWait + b.comp .remote =
      b.comp .e2e := by
  have hh := hb.host.host
  have ht := (hb.unjoined hj).target
  have hr := (hb.unjoined hj).remote
  have hx : ∀ c, b.valid c = true → extra b c = b.comp c := fun c hc => by simp [extra, hc]
  have h0 : ∀ c, b.valid c = false → extra b c = 0 := fun c hc => by simp [extra, hc]
  have hm := mainSum_expand b
  rw [hb.addsUp.1, hx .trSub (hh _ rfl), h0 .net (ht _ rfl), h0 .tgtRx (ht _ rfl),
    h0 .tgtSub (ht _ rfl), h0 .tgtWait (ht _ rfl), h0 .tgtData (ht _ rfl), h0 .tgtBe (ht _ rfl),
    h0 .tgtCmpl (ht _ rfl), hx .hostRx (hh _ rfl), hx .trCmpl (hh _ rfl), hx .blkCmpl (hh _ rfl),
    hx .remote hr] at hm
  rw [hm]
  simp [stageSum_eq, Stage.parts, Stage.extras, blkShare]
  ring

/-! ## The host block layer -/

/-- The start of the request is known, and not after `queue_rq`. -/
def startSeen (h : HostRec) : Prop := h.ts .start ≠ 0 ∧ h.ts .start ≤ h.ts .queueRq

instance (h : HostRec) : Decidable (startSeen h) := inferInstanceAs (Decidable (_ ∧ _))

/-- The block layer's components are the same. -/
def SameBlk (a b : Breakdown) : Prop :=
  ∀ c, c = .blkSub ∨ c = .blkCmpl → b.valid c = a.valid c ∧ b.comp c = a.comp c

theorem SameBlk.refl (b : Breakdown) : SameBlk b b := fun _ _ => ⟨rfl, rfl⟩

theorem SameBlk.trans {a b c : Breakdown} (hab : SameBlk a b) (hbc : SameBlk b c) : SameBlk a c :=
  fun x hx => ⟨(hbc x hx).1.trans (hab x hx).1, (hbc x hx).2.trans (hab x hx).2⟩

theorem SameBlk.congr {a b b' : Breakdown} (hab : SameBlk a b) (hv : b'.valid = b.valid)
    (hc : b'.comp = b.comp) : SameBlk a b' := by
  intro x hx
  rw [hv, hc]
  exact hab x hx

/-- Every other component may be set. -/
theorem SameBlk.set {a b : Breakdown} (hab : SameBlk a b) {c : Comp} (hc : c ≠ .blkSub ∧ c ≠ .blkCmpl)
    (v : S64) : SameBlk a (b.set c v) := by
  intro x hx
  have hne : x ≠ c := by
    rcases hx with rfl | rfl
    · exact hc.1.symm
    · exact hc.2.symm
  rw [set_valid, set_comp, if_neg hne, if_neg hne]
  exact hab x hx

theorem readDataPhase_sameBlk (h : HostRec) (b : Breakdown) : SameBlk b (readDataPhase h b) := by
  have hr := SameBlk.refl b
  rcases readDataPhase_cases h b with hp | ⟨busy, hp⟩ <;> rw [hp]
  · exact hr.set (by decide) _
  · exact ((hr.set (by decide) _).set (by decide) _).set (by decide) _

theorem hostSide_sameBlk (h : HostRec) (b : Breakdown) : SameBlk (commonHost h b) (hostSide h b) := by
  have hr := SameBlk.refl (commonHost h b)
  simp only [hostSide, commonHost_ioClass]
  cases b.ioClass with
  | read => exact ((hr.set (by decide) _).set (by decide) _).trans (readDataPhase_sameBlk h _)
  | writeInline => exact ((hr.set (by decide) _).set (by decide) _).set (by decide) _
  | writeR2t =>
    simp only
    rw [add_eq_set (commonHost_valid_trSub h b)]
    exact (((hr.set (by decide) _).set (by decide) _).set (by decide) _).set (by decide) _

theorem rdmaHostSide_sameBlk (h : HostRec) (b : Breakdown) :
    SameBlk (commonHost h b) (rdmaHostSide h b) :=
  (((SameBlk.refl _).set (by decide) _).set (by decide) _).set (by decide) _

theorem backendDetails_sameBlk (T : TgtTs → U64) (b : Breakdown) : SameBlk b (backendDetails T b) := by
  unfold backendDetails
  split_ifs
  · exact .refl b
  · exact (((SameBlk.refl b).set (by decide) _).set (by decide) _).set (by decide) _

theorem splitRemote_sameBlk (residence : S64) (b : Breakdown) :
    SameBlk b (splitRemote residence b) := by
  intro c hc
  have hne : c ≠ .remote ∧ c ≠ .net := by rcases hc with rfl | rfl <;> decide
  exact ⟨splitRemote_valid _ _ hne.1 hne.2, splitRemote_comp _ _ hne.1 hne.2⟩

theorem writeDataPhase_sameBlk (t : TgtRec) (b : Breakdown) : SameBlk b (writeDataPhase t b).2 := by
  rcases writeDataPhase_cases t b with hp | ⟨busy, hp⟩ <;> rw [hp]
  · exact .refl b
  · exact ((SameBlk.refl b).set (by decide) _).set (by decide) _

theorem targetSide_sameBlk (t : TgtRec) (b : Breakdown) : SameBlk b (targetSide t b) := by
  have h0 : SameBlk b (b.set .tgtBe (d (t.ts .complete) (t.ts .exec))) :=
    (SameBlk.refl b).set (by decide) _
  simp only [targetSide, set_ioClass]
  refine SameBlk.trans ?_ (backendDetails_sameBlk _ _)
  refine SameBlk.trans ?_ (splitRemote_sameBlk _ _)
  cases b.ioClass with
  | read | writeInline => exact ((h0.set (by decide) _).set (by decide) _).set (by decide) _
  | writeR2t =>
    refine SameBlk.set (SameBlk.set ?_ (by decide) _) (by decide) _
    exact (h0.set (by decide) _).trans (writeDataPhase_sameBlk t _)

theorem rdmaSplit_sameBlk (t : TgtRec) (T : TgtTs → U64) (b : Breakdown) :
    SameBlk b (rdmaSplit t T b) := by
  have h1 : SameBlk b (b.set .tgtRx (d (T .cmdProc) (T .cmdArr))) := (SameBlk.refl b).set (by decide) _
  have h2 : ∀ f, SameBlk b (rdmaSubmission f T (b.set .tgtRx (d (T .cmdProc) (T .cmdArr)))) := by
    intro f
    cases f with
    | false => exact h1.set (by decide) _
    | true => exact SameBlk.set (SameBlk.congr (h1.set (by decide) _) rfl rfl) (by decide) _
  have h3 : SameBlk b (rdmaReadTransfer t T (rdmaSubmission (t.hdr.has ntpFRdmaRead) T
      (b.set .tgtRx (d (T .cmdProc) (T .cmdArr))))) := by
    unfold rdmaReadTransfer
    split_ifs
    · exact (h2 _).set (by decide) _
    · exact h2 _
  simp only [rdmaSplit]
  refine SameBlk.trans ?_ (backendDetails_sameBlk _ _)
  refine SameBlk.trans ?_ (splitRemote_sameBlk _ _)
  exact (h3.set (by decide) _).set (by decide) _

theorem rdmaJoin_sameBlk (h : HostRec) (t : Option TgtRec) (b : Breakdown) :
    SameBlk b (rdmaJoin h t b).2 := by
  cases t with
  | none => exact .refl b
  | some t =>
    have hr : SameBlk b (rdmaTargetSide t b).2 := by
      rcases rdmaTargetSide_cases t b with hp | ⟨T, hp | hp⟩ <;> rw [hp]
      · exact .refl b
      · exact rdmaSplit_sameBlk t T b
      · exact SameBlk.trans ((SameBlk.refl b).congr rfl rfl) (rdmaSplit_sameBlk t T _)
    simp only [rdmaJoin]
    split_ifs
    · exact hr.congr rfl rfl
    · exact hr
    · exact .refl b

theorem tcpJoin_sameBlk (t : Option TgtRec) (b : Breakdown) : SameBlk b (tcpJoin t b).2 := by
  cases t with
  | none => exact .refl b
  | some t =>
    simp only [tcpJoin]
    split_ifs
    · exact (targetSide_sameBlk t b).congr rfl rfl
    · exact .refl b

/-- Whatever the target record says, the block layer's components are those of the host. -/
theorem ntpBreakdown_sameBlk (h : HostRec) (t : Option TgtRec)
    (hok : (ntpBreakdown h t).1 ≠ .incompleteHost) :
    SameBlk (commonHost h { ioClass := ntpIoClassOf h }) (ntpBreakdown h t).2 := by
  revert hok
  simp only [ntpBreakdown]
  split_ifs
  · exact fun hok => absurd rfl hok
  · intro _
    exact ((rdmaHostSide_sameBlk h _).trans (rdmaJoin_sameBlk h t _)).congr (stages_valid _)
      (stages_comp _)
  · exact fun hok => absurd rfl hok
  · intro _
    exact ((hostSide_sameBlk h _).trans (tcpJoin_sameBlk t _)).congr (stages_valid _) (stages_comp _)

theorem ntpBreakdown_blkSub (h : HostRec) (t : Option TgtRec)
    (hok : (ntpBreakdown h t).1 ≠ .incompleteHost) :
    (ntpBreakdown h t).2.valid .blkSub = decide (startSeen h) := by
  rw [(ntpBreakdown_sameBlk h t hok .blkSub (by simp)).1]
  by_cases hs : startSeen h
  · have hc : h.ts .start ≠ 0 ∧ h.ts .start ≤ h.ts .queueRq := hs
    simp only [commonHost, hs, if_pos hc]
    split_ifs <;> simp
  · have hc : ¬ (h.ts .start ≠ 0 ∧ h.ts .start ≤ h.ts .queueRq) := hs
    simp only [commonHost, hs, if_neg hc]
    split_ifs <;> simp

/-- The block layer's share: from the start to `queue_rq` where that is known, and the completion. -/
theorem ntpBreakdown_blkShare (h : HostRec) (t : Option TgtRec)
    (hok : (ntpBreakdown h t).1 ≠ .incompleteHost) :
    blkShare (ntpBreakdown h t).2 = (if startSeen h then d (h.ts .queueRq) (h.ts .start) else 0) +
      d (h.ts .blkDone) (h.ts .rspProc) := by
  have hs := ntpBreakdown_sameBlk h t hok
  have h1 := hs .blkSub (by simp)
  have h2 := hs .blkCmpl (by simp)
  rw [blkShare, extra, ntpBreakdown_blkSub h t hok, h1.2, h2.2]
  simp only [decide_eq_true_eq]
  by_cases hs : startSeen h
  · have hc : h.ts .start ≠ 0 ∧ h.ts .start ≤ h.ts .queueRq := hs
    simp only [commonHost, if_pos hs, if_pos hc]
    split_ifs <;> simp
  · have hc : ¬ (h.ts .start ≠ 0 ∧ h.ts .start ≤ h.ts .queueRq) := hs
    simp only [commonHost, if_neg hs, if_neg hc]
    split_ifs <;> simp

/-- The stages partition the latency of a command. Joined with a start, all five are there and add up
to it; joined without one, the first is missing and the block layer's completion stands in for it;
not joined, only the host's stages can be there, and the receive path, the wait for the data and the
remote component make up the rest. -/
theorem stages_partition_latency (h : HostRec) (t : Option TgtRec) :
    let err := (ntpBreakdown h t).1
    let b := (ntpBreakdown h t).2
    (b.joined = true → b.valid .blkSub = true →
      (∀ s, b.stageValid s = true) ∧
        b.stage .s1 + b.stage .s2 + b.stage .s3s5 + b.stage .s6 + b.stage .s7s9 = b.comp .e2e) ∧
    (b.joined = true → b.valid .blkSub = false →
      (∀ s, b.stageValid s = false ↔ s = .s1) ∧
        b.stage .s2 + b.stage .s3s5 + b.stage .s6 + b.stage .s7s9 + b.comp .blkCmpl = b.comp .e2e) ∧
    (b.joined = false → err ≠ .incompleteHost →
      (∀ s, b.stageValid s = true → s = .s1 ∨ s = .s2) ∧
        (if b.stageValid .s1 then b.stage .s1 else b.comp .blkCmpl) + b.stage .s2 + b.comp .hostRx +
          (if b.valid .hostWait then b.comp .hostWait else 0) + b.comp .remote = b.comp .e2e) := by
  intro err b
  refine ⟨fun hj hs => ?_, fun hj hs => ?_, fun hj hok => ?_⟩
  · obtain ⟨a, ha, hb⟩ := ntpBreakdown_shaped h t (complete_of_joined hj)
    change b = stages a at hb
    rw [hb, stages_joined] at hj
    rw [hb, stages_valid] at hs
    have hp : ∀ s : Stage, s.parts.all a.valid = true := by
      intro s
      rw [joined_parts ha hj, hs]
      rfl
    rw [hb, stages_comp, ← joined_sum ha hj, ← stageSum_s1 hs]
    refine ⟨fun s => ?_, ?_⟩
    · rw [stages_stageValid ha.host.noStage, hp]
    · simp only [stages_stage (hp _)]
  · obtain ⟨a, ha, hb⟩ := ntpBreakdown_shaped h t (complete_of_joined hj)
    change b = stages a at hb
    rw [hb, stages_joined] at hj
    rw [hb, stages_valid] at hs
    have hp : ∀ s : Stage, s.parts.all a.valid = decide (s ≠ .s1) := by
      intro s
      rw [joined_parts ha hj, hs]
      rfl
    have hne : ∀ s : Stage, s ≠ .s1 → (stages a).stage s = stageSum a s :=
      fun s hn => stages_stage (by rw [hp]; exact decide_eq_true hn)
    rw [hb, stages_comp, ← joined_sum ha hj]
    refine ⟨fun s => ?_, ?_⟩
    · rw [stages_stageValid ha.host.noStage, hp]
      simp
    · rw [hne .s2 (by decide), hne .s3s5 (by decide), hne .s6 (by decide), hne .s7s9 (by decide)]
      simp only [blkShare, extra, hs]
      simp
      ring
  · obtain ⟨a, ha, hb⟩ := ntpBreakdown_shaped h t hok
    change b = stages a at hb
    rw [hb, stages_joined] at hj
    have hp := unjoined_parts ha hj
    have h2 : (stages a).stage .s2 = stageSum a .s2 := stages_stage (by simp [hp])
    have h1 : (if (stages a).stageValid .s1 then (stages a).stage .s1 else a.comp .blkCmpl) =
        blkShare a := by
      rw [stages_stageValid ha.host.noStage, hp]
      by_cases hs : a.valid .blkSub = true
      · rw [stages_stage (by simp [hp, hs]), stageSum_s1 hs]
        simp [hs]
      · simp [hs, blkShare, extra]
    rw [hb]
    refine ⟨fun s hs => ?_, ?_⟩
    · rw [stages_stageValid ha.host.noStage, hp] at hs
      cases s <;> simp at hs ⊢
    · rw [stages_comp, stages_valid, h1, h2]
      exact unjoined_sum ha hj

theorem stages_partition_latency_read :
    (∀ s, (ntpBreakdown exampleReadHost (some exampleReadTarget)).2.stageValid s = true) ∧
      (ntpBreakdown exampleReadHost none).2.stageValid .s2 = true ∧
      ∀ s, (ntpBreakdown exampleReadHost none).2.stageValid s = true → s = .s1 ∨ s = .s2 :=
  ⟨((stages_partition_latency exampleReadHost (some exampleReadTarget)).1 (by decide) (by decide)).1,
    by decide,
    ((stages_partition_latency exampleReadHost none).2.2 (by decide) (by decide)).1⟩

end Ntprof
