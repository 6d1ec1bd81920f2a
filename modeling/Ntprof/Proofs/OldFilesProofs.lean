import Ntprof.Proofs.OutcomeProofs
import Ntprof.Proofs.TraceFormatProofs

/-!
# Breakdowns of records from old files

A version 3 file has no data phase of a read, a version 4 file none of a write. Their records give the
breakdown of the full records with the data phases moved back into the driver's components.
-/

namespace Ntprof

/-- The components of the data phases. -/
def Comp.ofData (c : Comp) : Bool := c == .hostData || c == .hostWait || c == .tgtData || c == .tgtWait

/-- There is no data phase. -/
def NoData (b : Breakdown) : Prop := ∀ c : Comp, c.ofData = true → b.valid c = false

/-- What a component gains when the data phases of `b` are not there. -/
def moved (b : Breakdown) : Comp → S64
  | .trCmpl => extra b .hostData + extra b .hostWait
  | .tgtSub => extra b .tgtData + extra b .tgtWait
  | _ => 0

/-- What a stage gains. -/
def stageMoved (b : Breakdown) : Stage → S64
  | .s2 => extra b .hostWait
  | .s3s5 => -(extra b .hostWait + extra b .tgtWait)
  | .s6 => extra b .tgtWait
  | _ => 0

/-- The components of `b'` are those of `b` without its data phases. -/
structure OldComps (b b' : Breakdown) : Prop where
  ioClass : b'.ioClass = b.ioClass
  joined : b'.joined = b.joined
  postEstimated : b'.postEstimated = b.postEstimated
  valid : ∀ c, b'.valid c = (b.valid c && !c.ofData)
  comp : ∀ c, c.ofData = false → b'.comp c = b.comp c + moved b c

/-- The breakdown `b'` is `b` without its data phases. -/
structure OldReading (b b' : Breakdown) : Prop extends OldComps b b' where
  stageValid : ∀ s, b'.stageValid s = b.stageValid s
  stage : ∀ s, b.stageValid s = true → b'.stage s = b.stage s + stageMoved b s

/-! ## Moving the data phases -/

theorem NoData.set {b : Breakdown} (hb : NoData b) {c : Comp} (hc : c.ofData = false) (v : S64) :
    NoData (b.set c v) := by
  intro x hx
  rw [set_valid, if_neg (by rintro rfl; rw [hc] at hx; cases hx)]
  exact hb x hx

theorem NoData.splitRemote {b : Breakdown} (hb : NoData b) (residence : S64) :
    NoData (splitRemote residence b) := by
  intro x hx
  have := hb x hx
  cases x <;> simp_all [Ntprof.splitRemote, Comp.ofData]

theorem NoData.backendDetails {b : Breakdown} (hb : NoData b) (T : TgtTs → U64) :
    NoData (backendDetails T b) := by
  unfold Ntprof.backendDetails
  split_ifs
  · exact hb
  · exact ((hb.set rfl _).set rfl _).set rfl _

theorem NoData.commonHost (h : HostRec) {b : Breakdown} (hb : ∀ c, b.valid c = false) :
    NoData (commonHost h b) := by
  intro c hc
  rw [commonHost_valid h b (by cases c <;> first | rfl | cases hc)]
  exact hb c

theorem NoData.rdmaSplit (t : TgtRec) (T : TgtTs → U64) {b : Breakdown} (hb : NoData b) :
    NoData (rdmaSplit t T b) := by
  have hsub : ∀ fetch, NoData (rdmaSubmission fetch T (b.set .tgtRx (d (T .cmdProc) (T .cmdArr)))) := by
    intro fetch
    have hrx : NoData (b.set .tgtRx (d (T .cmdProc) (T .cmdArr))) := hb.set rfl _
    unfold rdmaSubmission
    split_ifs
    · have hfetch : NoData ((b.set .tgtRx (d (T .cmdProc) (T .cmdArr))).set .tgtSub
          (d (T .r2tSent) (T .cmdProc) + d (T .exec) (T .dataProc))) := hrx.set rfl _
      exact hfetch.set rfl (d (T .dataProc) (T .r2tSent))
    · exact hrx.set rfl _
  have htransfer : ∀ fetch, NoData (rdmaReadTransfer t T
      (rdmaSubmission fetch T (b.set .tgtRx (d (T .cmdProc) (T .cmdArr))))) := by
    intro fetch
    unfold rdmaReadTransfer
    split_ifs
    · exact (hsub fetch).set rfl _
    · exact hsub fetch
  exact ((((htransfer _).set rfl _).set rfl _).splitRemote _).backendDetails T

theorem extra_set_of_ne {b : Breakdown} {c x : Comp} (hx : x ≠ c) (v : S64) :
    extra (b.set c v) x = extra b x := by
  simp [extra, hx]

theorem moved_set {b : Breakdown} {c : Comp} (hc : c.ofData = false) (v : S64) (x : Comp) :
    moved (b.set c v) x = moved b x := by
  have h1 : Comp.hostData ≠ c := by rintro rfl; cases hc
  have h2 : Comp.hostWait ≠ c := by rintro rfl; cases hc
  have h3 : Comp.tgtData ≠ c := by rintro rfl; cases hc
  have h4 : Comp.tgtWait ≠ c := by rintro rfl; cases hc
  cases x <;> simp [moved, extra_set_of_ne, h1, h2, h3, h4]

theorem moved_of_noData {b : Breakdown} (hb : NoData b) (x : Comp) :
    moved b x = 0 := by
  cases x <;> simp [moved, extra, hb .hostData rfl, hb .hostWait rfl, hb .tgtData rfl, hb .tgtWait rfl]

/-- Without data phases there is nothing to move. -/
theorem OldComps.refl {b : Breakdown} (hb : NoData b) :
    OldComps b b where
  ioClass := rfl
  joined := rfl
  postEstimated := rfl
  valid c := by
    cases hc : c.ofData with
    | false => simp
    | true => simp [hb c hc]
  comp c _ := by rw [moved_of_noData hb, add_zero]

/-- Setting a component to a value that leaves out what was moved. -/
theorem OldComps.set {b b' : Breakdown} (h : OldComps b b') {c : Comp} (hc : c.ofData = false) {v v' : S64}
    (hv : v' = v + moved b c) : OldComps (b.set c v) (b'.set c v') where
  ioClass := h.ioClass
  joined := h.joined
  postEstimated := h.postEstimated
  valid x := by
    rw [set_valid, set_valid, h.valid]
    split_ifs with hx
    · rw [hx, hc]
      rfl
    · rfl
  comp x hx := by
    rw [set_comp, set_comp, moved_set hc]
    split_ifs with hxc
    · rw [hv, hxc]
    · exact h.comp x hx

theorem OldComps.splitRemote {b b' : Breakdown} (h : OldComps b b') (residence : S64) :
    OldComps (splitRemote residence b) (splitRemote residence b') := by
  have hremote := h.comp .remote rfl
  have hset : OldComps (b.set .net (b.comp .remote - residence)) (b'.set .net (b'.comp .remote - residence)) :=
    h.set rfl (by simp [hremote, moved])
  constructor
  · exact h.ioClass
  · exact h.joined
  · exact h.postEstimated
  · intro c
    by_cases hc : c = .remote
    · simp [Ntprof.splitRemote, hc]
    · have := hset.valid c
      simpa [Ntprof.splitRemote, hc] using this
  · intro c hx
    have hm : moved (Ntprof.splitRemote residence b) c = moved (b.set .net (b.comp .remote - residence)) c := by
      cases c <;> simp [moved, extra, Ntprof.splitRemote]
    rw [hm]
    by_cases hc : c = .remote
    · simp [Ntprof.splitRemote, hc, moved]
    · have := hset.comp c hx
      simpa [Ntprof.splitRemote, hc] using this

theorem OldComps.backendDetails {b b' : Breakdown} (h : OldComps b b') {T T' : TgtTs → U64}
    (hT : ∀ i, i ≠ .dataLastArr → i ≠ .dataDone → T' i = T i) :
    OldComps (backendDetails T b) (backendDetails T' b') := by
  unfold Ntprof.backendDetails
  rw [hT .beIssue (by decide) (by decide), hT .beDone (by decide) (by decide),
    hT .complete (by decide) (by decide), hT .exec (by decide) (by decide)]
  split_ifs
  · exact h
  · have hzero : ∀ v : S64, v = v + 0 := fun v => (add_zero v).symm
    exact ((h.set rfl (hzero _)).set rfl (hzero _)).set rfl (hzero _)

/-- A data phase of the host goes back to its completion. -/
theorem OldComps.hostPhase {b b' : Breakdown} (h : OldComps b b') (h1 : b.valid .hostData = false)
    (h2 : b.valid .hostWait = false) {busy wait v w : S64} (hv : w = v + (busy + wait)) :
    OldComps (((b.set .hostData busy).set .hostWait wait).set .trCmpl v) (b'.set .trCmpl w) where
  ioClass := h.ioClass
  joined := h.joined
  postEstimated := h.postEstimated
  valid c := by
    have := h.valid c
    cases c <;> simp_all [Comp.ofData]
  comp c hc := by
    have := h.comp c hc
    cases c <;> simp_all [Comp.ofData, moved, extra]

/-- A data phase of the target goes back to its submission. -/
theorem OldComps.tgtPhase {b b' : Breakdown} (h : OldComps b b') (h1 : b.valid .tgtData = false)
    (h2 : b.valid .tgtWait = false) {busy wait v w : S64} (hv : w = v + (busy + wait)) :
    OldComps (((b.set .tgtData busy).set .tgtWait wait).set .tgtSub v) (b'.set .tgtSub w) where
  ioClass := h.ioClass
  joined := h.joined
  postEstimated := h.postEstimated
  valid c := by
    have := h.valid c
    cases c <;> simp_all [Comp.ofData]
  comp c hc := by
    have := h.comp c hc
    cases c <;> simp_all [Comp.ofData, moved, extra]

/-- Without data phases and stages there is nothing to move. -/
theorem OldReading.refl_of_noStage {b : Breakdown} (hb : NoData b) (hs : ∀ s, b.stageValid s = false) :
    OldReading b b where
  toOldComps := OldComps.refl hb
  stageValid _ := rfl
  stage s hv := by
    rw [hs s] at hv
    cases hv

/-! ## The host side -/

/-- A host record of a version 3 file. -/
structure OldHost (h h' : HostRec) : Prop where
  hdr : h'.hdr = h.hdr
  ts : ∀ i, i ≠ .c2hLastArr → i ≠ .c2hDone → h'.ts i = h.ts i
  busy : h'.c2hBusyNs = 0

theorem oldHost (h : HostRec) : OldHost h (h.ofVersion 3) where
  hdr := rfl
  ts i h1 h2 := by cases i <;> first | rfl | contradiction
  busy := rfl

section Host

variable {h h' : HostRec} (hh : OldHost h h')
include hh

theorem ntpIoClassOf_old : ntpIoClassOf h' = ntpIoClassOf h := by
  unfold ntpIoClassOf
  rw [hh.hdr]

theorem haveAll_oldHost (idx : List HostTs) (h1 : .c2hLastArr ∉ idx) (h2 : .c2hDone ∉ idx) :
    haveAll h'.ts idx = haveAll h.ts idx := by
  unfold haveAll
  rw [Bool.eq_iff_iff, List.all_eq_true, List.all_eq_true]
  have hi : ∀ i ∈ idx, h'.ts i = h.ts i := fun i hm =>
    hh.ts i (by rintro rfl; exact h1 hm) (by rintro rfl; exact h2 hm)
  exact forall₂_congr fun i hm => by rw [hi i hm]

theorem hostComplete_old (c : IoClass) : hostComplete h' c = hostComplete h c := by
  cases c <;> exact haveAll_oldHost hh _ (by decide) (by decide)

theorem commonHost_old (b : Breakdown) : commonHost h' b = commonHost h b := by
  simp only [commonHost, hh.ts .cmdSent (by decide) (by decide), hh.ts .queueRq (by decide) (by decide),
    hh.ts .blkDone (by decide) (by decide), hh.ts .rspProc (by decide) (by decide),
    hh.ts .start (by decide) (by decide), hh.ts .nvmeDone (by decide) (by decide)]

theorem rdmaHostSide_old (b : Breakdown) : rdmaHostSide h' b = rdmaHostSide h b := by
  simp only [rdmaHostSide, commonHost_old hh, hh.ts .cmdSent (by decide) (by decide),
    hh.ts .rspProc (by decide) (by decide), hh.ts .rspArr (by decide) (by decide)]

/-- A read's completion takes back the data phase. -/
theorem readDataPhase_old {b : Breakdown} (hb : NoData b) :
    OldComps (readDataPhase h b) (readDataPhase h' b) := by
  have hold : readDataPhase h' b = b.set .trCmpl (d (h.ts .rspProc) (h.ts .c2hProc)) := by
    simp [readDataPhase, dataPhase, hh.busy, hh.ts .rspProc, hh.ts .c2hProc]
  rw [hold]
  rcases readDataPhase_cases h b with hp | ⟨busy, hp⟩
  · rw [hp]
    exact (OldComps.refl hb).set rfl (by simp [moved_of_noData hb])
  · rw [hp]
    refine (OldComps.refl hb).hostPhase (hb _ rfl) (hb _ rfl) ?_
    simp only [d]
    ring

/-- The host side of a command over TCP. -/
theorem hostSide_old {b : Breakdown} (hb : ∀ c, b.valid c = false) :
    OldComps (hostSide h b) (hostSide h' b) := by
  have hcommon := NoData.commonHost h hb
  simp only [hostSide, commonHost_old hh, commonHost_ioClass]
  cases b.ioClass with
  | read =>
    simp only [hh.ts .c2hArr (by decide) (by decide), hh.ts .cmdSent (by decide) (by decide),
      hh.ts .c2hProc (by decide) (by decide)]
    exact readDataPhase_old hh ((hcommon.set rfl _).set rfl _)
  | writeInline =>
    simp only [hh.ts .rspArr (by decide) (by decide), hh.ts .cmdSent (by decide) (by decide),
      hh.ts .rspProc (by decide) (by decide)]
    exact OldComps.refl (((hcommon.set rfl _).set rfl _).set rfl _)
  | writeR2t =>
    simp only [hh.ts .rspArr (by decide) (by decide), hh.ts .cmdSent (by decide) (by decide),
      hh.ts .rspProc (by decide) (by decide), hh.ts .r2tArr (by decide) (by decide),
      hh.ts .r2tProc (by decide) (by decide), hh.ts .dataStart (by decide) (by decide),
      add_eq_set (commonHost_valid_trSub h b)]
    exact OldComps.refl ((((hcommon.set rfl _).set rfl _).set rfl _).set rfl _)

end Host

/-! ## The target side -/

/-- A target record of a version 4 file. -/
structure OldTarget (t t' : TgtRec) : Prop where
  hdr : t'.hdr = t.hdr
  ts : ∀ i, i ≠ .dataLastArr → i ≠ .dataDone → t'.ts i = t.ts i
  busy : t'.h2cBusyNs = 0

theorem oldTarget (t : TgtRec) : OldTarget t (t.ofVersion 4) where
  hdr := rfl
  ts i h1 h2 := by cases i <;> first | rfl | contradiction
  busy := rfl

section Target

variable {t t' : TgtRec} (ht : OldTarget t t')
include ht

theorem haveAll_oldTarget (idx : List TgtTs) (h1 : .dataLastArr ∉ idx) (h2 : .dataDone ∉ idx) :
    haveAll t'.ts idx = haveAll t.ts idx := by
  unfold haveAll
  rw [Bool.eq_iff_iff, List.all_eq_true, List.all_eq_true]
  have hi : ∀ i ∈ idx, t'.ts i = t.ts i := fun i hm =>
    ht.ts i (by rintro rfl; exact h1 hm) (by rintro rfl; exact h2 hm)
  exact forall₂_congr fun i hm => by rw [hi i hm]

theorem targetComplete_old (c : IoClass) : targetComplete t' c = targetComplete t c := by
  cases c <;> exact haveAll_oldTarget ht _ (by decide) (by decide)

theorem targetSide_old {b b' : Breakdown} (h : OldComps b b') (h1 : b.valid .tgtData = false)
    (h2 : b.valid .tgtWait = false) : OldComps (targetSide t b) (targetSide t' b') := by
  have hzero : ∀ v : S64, v = v + 0 := fun v => (add_zero v).symm
  have hbe := h.set (c := .tgtBe) rfl (hzero (d (t.ts .complete) (t.ts .exec)))
  simp only [targetSide, set_ioClass, h.ioClass, ht.ts .complete (by decide) (by decide),
    ht.ts .exec (by decide) (by decide)]
  apply OldComps.backendDetails _ ht.ts
  cases b.ioClass with
  | read =>
    simp only [ht.ts .cmdProc (by decide) (by decide), ht.ts .cmdArr (by decide) (by decide),
      ht.ts .c2hSent (by decide) (by decide)]
    refine OldComps.splitRemote (((hbe.set rfl (hzero _)).set rfl ?_).set rfl (hzero _)) _
    simp [moved, extra, h1, h2]
  | writeInline =>
    simp only [ht.ts .cmdProc (by decide) (by decide), ht.ts .cmdArr (by decide) (by decide),
      ht.ts .rspSent (by decide) (by decide)]
    refine OldComps.splitRemote (((hbe.set rfl (hzero _)).set rfl ?_).set rfl (hzero _)) _
    simp [moved, extra, h1, h2]
  | writeR2t =>
    have hold : ∀ c, writeDataPhase t' c = (d (t.ts .exec) (t.ts .dataProc), c) := by
      intro c
      simp [writeDataPhase, dataPhase, ht.busy, ht.ts .exec, ht.ts .dataProc]
    simp only [ht.ts .cmdProc (by decide) (by decide), ht.ts .cmdArr (by decide) (by decide),
      ht.ts .dataProc (by decide) (by decide), ht.ts .dataArr (by decide) (by decide),
      ht.ts .r2tSent (by decide) (by decide), ht.ts .rspSent (by decide) (by decide), hold]
    have hrx := hbe.set (c := .tgtRx) rfl
      (hzero (d (t.ts .cmdProc) (t.ts .cmdArr) + d (t.ts .dataProc) (t.ts .dataArr)))
    rcases writeDataPhase_cases t ((b.set .tgtBe (d (t.ts .complete) (t.ts .exec))).set .tgtRx
      (d (t.ts .cmdProc) (t.ts .cmdArr) + d (t.ts .dataProc) (t.ts .dataArr))) with hp | ⟨busy, hp⟩
    · rw [hp]
      refine OldComps.splitRemote ((hrx.set rfl ?_).set rfl (hzero _)) _
      simp [moved, extra, h1, h2]
    · rw [hp]
      refine OldComps.splitRemote ((hrx.tgtPhase (by simp [h1]) (by simp [h2]) ?_).set rfl (hzero _)) _
      simp only [d]
      ring

end Target

theorem tcpJoin_old {t t' : TgtRec} (ht : OldTarget t t') {b b' : Breakdown} (h : OldComps b b')
    (hb : HostForm b) :
    (tcpJoin (some t') b').1 = (tcpJoin (some t) b).1 ∧
      OldComps (tcpJoin (some t) b).2 (tcpJoin (some t') b').2 := by
  have hside := targetSide_old ht h (hb.target _ rfl) (hb.target _ rfl)
  simp only [tcpJoin, ht.hdr, h.ioClass, targetComplete_old ht]
  split_ifs
  · exact ⟨rfl, hside.ioClass, rfl, hside.postEstimated, hside.valid, hside.comp⟩
  · exact ⟨rfl, h⟩

/-! ## RDMA -/

section Rdma

variable {T T' : TgtTs → U64} (hT : ∀ i, i ≠ .dataLastArr → i ≠ .dataDone → T' i = T i)
include hT

theorem rdmaSplit_old {t t' : TgtRec} (ht : OldTarget t t') (b : Breakdown) :
    rdmaSplit t' T' b = rdmaSplit t T b := by
  simp only [rdmaSplit, rdmaSubmission, rdmaReadTransfer, backendDetails, ht.hdr,
    hT .cmdArr (by decide) (by decide), hT .cmdProc (by decide) (by decide),
    hT .r2tSent (by decide) (by decide), hT .dataProc (by decide) (by decide),
    hT .exec (by decide) (by decide), hT .beIssue (by decide) (by decide),
    hT .beDone (by decide) (by decide), hT .complete (by decide) (by decide),
    hT .c2hSent (by decide) (by decide), hT .rspSent (by decide) (by decide),
    hT .sendDone (by decide) (by decide)]

theorem update_old (i : TgtTs) {x x' : U64} (hx : x' = x) :
    ∀ j, j ≠ .dataLastArr → j ≠ .dataDone → Function.update T' i x' j = Function.update T i x j := by
  intro j h1 h2
  rw [Function.update_apply, Function.update_apply, hx, hT j h1 h2]

theorem rdmaOwnPosting_old :
    ∀ j, j ≠ .dataLastArr → j ≠ .dataDone → rdmaOwnPosting T' j = rdmaOwnPosting T j := by
  unfold rdmaOwnPosting
  rw [hT .sendDone (by decide) (by decide), hT .rspSent (by decide) (by decide)]
  split_ifs
  · exact update_old (update_old hT _ rfl) _ rfl
  · exact hT

end Rdma

theorem rdmaTargetSide_old {t t' : TgtRec} (ht : OldTarget t t') (b : Breakdown) :
    rdmaTargetSide t' b = rdmaTargetSide t b := by
  have hown := rdmaOwnPosting_old ht.ts
  have hcomplete := hown .complete (by decide) (by decide)
  have hest := update_old hown .rspSent hcomplete
  have hread := update_old hest .c2hSent (hest .complete (by decide) (by decide))
  simp only [rdmaTargetSide, ht.hdr, haveAll_oldTarget ht tgtReqRdma (by decide) (by decide),
    ht.ts .r2tSent (by decide) (by decide), ht.ts .dataProc (by decide) (by decide),
    hown .rspSent (by decide) (by decide), hown .sendDone (by decide) (by decide)]
  split_ifs
  · rfl
  · rfl
  · rw [rdmaSplit_old hread ht]
  · rw [rdmaSplit_old hest ht]
  · rw [rdmaSplit_old hown ht]

theorem rdmaJoin_old {h h' : HostRec} (hh : OldHost h h') {t t' : TgtRec} (ht : OldTarget t t')
    (b : Breakdown) : rdmaJoin h' (some t') b = rdmaJoin h (some t) b := by
  simp only [rdmaJoin, hh.hdr, ht.hdr, rdmaTargetSide_old ht]

theorem NoData.rdmaHostSide (h : HostRec) {b : Breakdown} (hb : ∀ c, b.valid c = false) :
    NoData (rdmaHostSide h b) :=
  (((NoData.commonHost h hb).set rfl _).set rfl _).set rfl _

theorem NoData.rdmaJoin (h : HostRec) (t : Option TgtRec) {b : Breakdown} (hb : NoData b) :
    NoData (rdmaJoin h t b).2 := by
  cases t with
  | none => exact hb
  | some t =>
    have hside : NoData (rdmaTargetSide t b).2 := by
      rcases rdmaTargetSide_cases t b with hp | ⟨T, hp | hp⟩ <;> rw [hp]
      · exact hb
      · exact hb.rdmaSplit t T
      · exact NoData.rdmaSplit t T (b := { b with postEstimated := true }) hb
    simp only [Ntprof.rdmaJoin]
    split_ifs
    · exact hside
    · exact hside
    · exact hb

/-! ## Stages -/

theorem Stage.parts_noData (s : Stage) {c : Comp} (hc : c ∈ s.parts) : c.ofData = false := by
  cases s <;> simp [Stage.parts] at hc <;> rcases hc with rfl | rfl | rfl <;> rfl

theorem extra_old {b b' : Breakdown} (h : OldComps b b') {c : Comp} (hc : c.ofData = true) : extra b' c = 0 := by
  simp [extra, h.valid, hc]

theorem stageSum_old {b b' : Breakdown} (h : OldComps b b') (s : Stage) :
    stageSum b' s = stageSum b s + stageMoved b s := by
  have hsame : ∀ c, moved b c = 0 → c.ofData = false → b'.comp c = b.comp c := by
    intro c hm hc
    rw [h.comp c hc, hm, add_zero]
  have htr : b'.comp .trCmpl = b.comp .trCmpl + (extra b .hostData + extra b .hostWait) := h.comp .trCmpl rfl
  have hsub : b'.comp .tgtSub = b.comp .tgtSub + (extra b .tgtData + extra b .tgtWait) := h.comp .tgtSub rfl
  rw [stageSum_eq, stageSum_eq]
  cases s with
  | s1 => simp [Stage.parts, Stage.extras, stageMoved, hsame .blkSub rfl rfl, hsame .blkCmpl rfl rfl]
  | s2 =>
    simp only [Stage.parts, Stage.extras, stageMoved, List.map_cons, List.map_nil, List.sum_cons, List.sum_nil,
      hsame .trSub rfl rfl, htr, extra_old h (c := .hostData) rfl]
    ring
  | s3s5 =>
    simp only [Stage.parts, Stage.extras, stageMoved, List.map_cons, List.map_nil, List.sum_cons, List.sum_nil,
      hsame .net rfl rfl, hsame .tgtRx rfl rfl, hsame .hostRx rfl rfl, extra_old h (c := .hostWait) rfl,
      extra_old h (c := .tgtWait) rfl]
    ring
  | s6 =>
    simp only [Stage.parts, Stage.extras, stageMoved, List.map_cons, List.map_nil, List.sum_cons, List.sum_nil,
      hsame .tgtCmpl rfl rfl, hsub, extra_old h (c := .tgtData) rfl]
    ring
  | s7s9 => simp [Stage.parts, Stage.extras, stageMoved, hsame .tgtBe rfl rfl]

theorem OldComps.stages {b b' : Breakdown} (h : OldComps b b') (hb : ∀ s, b.stageValid s = false)
    (hb' : ∀ s, b'.stageValid s = false) : OldReading (stages b) (stages b') := by
  have hparts : ∀ s : Stage, s.parts.all b'.valid = s.parts.all b.valid := by
    intro s
    rw [Bool.eq_iff_iff, List.all_eq_true, List.all_eq_true]
    exact forall₂_congr fun c hc => by rw [h.valid, s.parts_noData hc, Bool.not_false, Bool.and_true]
  have hmoved : ∀ c, moved (Ntprof.stages b) c = moved b c := by
    intro c
    cases c <;> simp [moved, extra, stages_comp, stages_valid]
  refine ⟨⟨?_, ?_, ?_, ?_, ?_⟩, ?_, ?_⟩
  · rw [stages_ioClass, stages_ioClass, h.ioClass]
  · rw [stages_joined, stages_joined, h.joined]
  · rw [stages_postEstimated, stages_postEstimated, h.postEstimated]
  · rw [stages_valid, stages_valid]
    exact h.valid
  · rw [stages_comp, stages_comp]
    intro c hc
    rw [hmoved]
    exact h.comp c hc
  · intro s
    rw [stages_stageValid hb, stages_stageValid hb', hparts]
  · intro s hs
    rw [stages_stageValid hb] at hs
    rw [stages_stage hs, stages_stage ((hparts s).trans hs), stageSum_old h]
    cases s <;> simp [stageMoved, extra, stages_comp, stages_valid]

/-! ## The breakdown -/

/-- A command whose records come from old files has the breakdown of its full records, with the data
phases of both sides back in the components of the drivers. -/
theorem old_files_consistent (h : HostRec) (t : Option TgtRec) :
    (ntpBreakdown (h.ofVersion 3) (t.map (TgtRec.ofVersion 4))).1 = (ntpBreakdown h t).1 ∧
      OldReading (ntpBreakdown h t).2 (ntpBreakdown (h.ofVersion 3) (t.map (TgtRec.ofVersion 4))).2 := by
  have hh := oldHost h
  have ht : ∀ t, OldTarget t (t.ofVersion 4) := oldTarget
  by_cases hr : h.hdr.transport = ntpTrRdma
  · -- no data phase over RDMA: nothing changes
    have heq : ntpBreakdown (h.ofVersion 3) (t.map (TgtRec.ofVersion 4)) = ntpBreakdown h t := by
      simp only [ntpBreakdown, hh.hdr, if_pos hr, haveAll_oldHost hh hostReqRdma (by decide) (by decide),
        ntpIoClassOf_old hh, rdmaHostSide_old hh]
      cases t with
      | none => rfl
      | some t => rw [Option.map_some, rdmaJoin_old hh (ht t)]
    rw [heq]
    refine ⟨rfl, ?_⟩
    simp only [ntpBreakdown, if_pos hr]
    split_ifs
    · exact OldReading.refl_of_noStage (fun _ _ => rfl) fun _ => rfl
    · have hshape := rdmaJoin_shaped h t (rdmaHostSide_shaped h (ntpIoClassOf h)) (rdmaHostSide_joined h _)
      have hno : NoData (rdmaJoin h t (rdmaHostSide h { ioClass := ntpIoClassOf h })).2 :=
        (NoData.rdmaHostSide h fun _ => rfl).rdmaJoin h t
      exact (OldComps.refl hno).stages hshape.host.noStage hshape.host.noStage
  · simp only [ntpBreakdown, hh.hdr, if_neg hr, ntpIoClassOf_old hh, hostComplete_old hh]
    split_ifs
    · exact ⟨rfl, OldReading.refl_of_noStage (fun _ _ => rfl) fun _ => rfl⟩
    · have hside := hostSide_old hh (b := { ioClass := ntpIoClassOf h }) fun _ => rfl
      have hs := hostSide_shaped h (ntpIoClassOf h)
      have hs' := hostSide_shaped (h.ofVersion 3) (ntpIoClassOf h)
      have hj := tcpJoin_shaped t hs (hostSide_joined h _)
      have hj' := tcpJoin_shaped (t.map (TgtRec.ofVersion 4)) hs' (hostSide_joined _ _)
      cases t with
      | none => exact ⟨rfl, hside.stages hj.host.noStage hj'.host.noStage⟩
      | some t =>
        have hjoin := tcpJoin_old (ht t) hside (hs.unjoined (hostSide_joined h _))
        exact ⟨hjoin.1, hjoin.2.stages hj.host.noStage hj'.host.noStage⟩

end Ntprof
