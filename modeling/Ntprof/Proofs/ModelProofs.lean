import Ntprof.Model
import Mathlib.Algebra.BigOperators.Ring.Finset
import Mathlib.Tactic.Ring
import Mathlib.Tactic.Abel

/-!
# Proofs: the components add up

The main components of a breakdown telescope: every endpoint that one component starts from is the
endpoint another one ends at, so their sum is the end-to-end time. `weight b c` is what component `c`
contributes to that sum; setting a component replaces its weight (`mainSum_set`), and each side of
the model is then a sum of differences of timestamps.
-/

namespace Ntprof

/-- A component that counts towards the end-to-end latency: neither that latency nor a detail. -/
def Comp.main (c : Comp) : Bool := c != .e2e && !(ntpComps c).detail

/-- The sum of the valid main components. -/
def mainSum (b : Breakdown) : S64 := ((Comp.all.filter fun c => c.main && b.valid c).map b.comp).sum

/-- The contribution of component `c` to `mainSum b`. -/
def weight (b : Breakdown) (c : Comp) : S64 := if c.main && b.valid c then b.comp c else 0

theorem list_sum_filter (b : Breakdown) (l : List Comp) :
    ((l.filter fun c => c.main && b.valid c).map b.comp).sum = (l.map (weight b)).sum := by
  induction l with
  | nil => rfl
  | cons c l ih =>
    by_cases h : (c.main && b.valid c) = true
    · simp only [List.filter_cons, h, if_true, List.map_cons, List.sum_cons, ih, weight]
    · simp only [List.filter_cons, h, List.map_cons, List.sum_cons, weight]
      simpa using ih

theorem mainSum_eq_sum (b : Breakdown) : mainSum b = ∑ c, weight b c := by
  have hnd : Comp.all.Nodup := by decide
  rw [mainSum, list_sum_filter]
  exact (List.sum_toFinset (weight b) hnd).symm

/-! ## The weights of a changed breakdown -/

theorem weight_set (b : Breakdown) (c : Comp) (v : S64) :
    weight (b.set c v) = Function.update (weight b) c (if c.main then v else 0) := by
  funext x
  by_cases hx : x = c
  · subst hx; simp [weight, Breakdown.set]
  · simp [weight, Breakdown.set, Function.update_of_ne hx]

theorem sum_update (f : Comp → S64) (c : Comp) (v : S64) :
    ∑ x, Function.update f c v x = (∑ x, f x) + (v - f c) := by
  rw [Finset.sum_update_of_mem (Finset.mem_univ c), Finset.sdiff_singleton_eq_erase,
    ← Finset.add_sum_erase Finset.univ f (Finset.mem_univ c)]
  ring

/-- Setting a component replaces its weight in the sum. -/
theorem mainSum_set (b : Breakdown) (c : Comp) (v : S64) :
    mainSum (b.set c v) = mainSum b + ((if c.main then v else 0) - weight b c) := by
  rw [mainSum_eq_sum, weight_set, sum_update, mainSum_eq_sum]

/-- Two breakdowns with the same components have the same sum. -/
theorem mainSum_congr {a b : Breakdown} (hv : a.valid = b.valid) (hc : a.comp = b.comp) :
    mainSum a = mainSum b := by
  simp [mainSum, hv, hc]

theorem mainSum_blank {b : Breakdown} (hb : ∀ c, b.valid c = false) : mainSum b = 0 := by
  simp [mainSum, hb]

@[simp] theorem set_valid (b : Breakdown) (c x : Comp) (v : S64) :
    (b.set c v).valid x = if x = c then true else b.valid x := by
  simp [Breakdown.set, Function.update_apply]

@[simp] theorem set_comp (b : Breakdown) (c x : Comp) (v : S64) :
    (b.set c v).comp x = if x = c then v else b.comp x := by
  simp [Breakdown.set, Function.update_apply]

@[simp] theorem set_ioClass (b : Breakdown) (c : Comp) (v : S64) : (b.set c v).ioClass = b.ioClass :=
  rfl

/-! ## The host side -/

/-- The components that only a target record can set. -/
def Comp.ofTarget : Comp → Bool
  | .net | .tgtRx | .tgtSub | .tgtWait | .tgtData | .tgtBe | .tgtCmpl => true
  | .tgtBeSub | .tgtDev | .tgtBeCmpl | .netData => true
  | _ => false

/-- What the host side alone leaves: one remote component and nothing of the target. -/
structure HostForm (b : Breakdown) : Prop where
  remote : b.valid .remote = true
  target : ∀ c : Comp, c.ofTarget = true → b.valid c = false

/-- The end-to-end time starts at the request's start where that is known, else at `queue_rq`. -/
def e2eFrom (h : HostRec) : U64 :=
  if h.ts .start ≠ 0 ∧ h.ts .start ≤ h.ts .queueRq then h.ts .start else h.ts .queueRq

theorem commonHost_e2e (h : HostRec) (b : Breakdown) :
    (commonHost h b).comp .e2e = d (h.ts .blkDone) (e2eFrom h) := by
  simp only [commonHost, e2eFrom]
  split_ifs <;> simp

theorem commonHost_mainSum (h : HostRec) {b : Breakdown} (hb : ∀ c, b.valid c = false) :
    mainSum (commonHost h b) =
      d (h.ts .cmdSent) (e2eFrom h) + d (h.ts .blkDone) (h.ts .rspProc) := by
  simp only [commonHost, e2eFrom]
  split_ifs <;>
    simp only [mainSum_set, mainSum_blank hb, weight, set_valid, set_comp, hb, Comp.main, ntpComps] <;>
    simp [d] <;> ring

@[simp] theorem commonHost_ioClass (h : HostRec) (b : Breakdown) :
    (commonHost h b).ioClass = b.ioClass := by
  simp only [commonHost]
  split_ifs <;> rfl

/-- The components the common host part may set. -/
def Comp.blkLayer (c : Comp) : Bool :=
  c == .trSub || c == .blkCmpl || c == .blkSub || c == .e2e || c == .cmplIpi

theorem commonHost_valid (h : HostRec) (b : Breakdown) {c : Comp} (hc : c.blkLayer = false) :
    (commonHost h b).valid c = b.valid c := by
  simp only [commonHost]
  split_ifs <;> cases c <;> simp_all [Comp.blkLayer]

theorem commonHost_valid_trSub (h : HostRec) (b : Breakdown) :
    (commonHost h b).valid .trSub = true := by
  simp only [commonHost]
  split_ifs <;> simp

/-- Adding to a component that is valid already is setting it. -/
theorem add_eq_set {b : Breakdown} {c : Comp} (hc : b.valid c = true) (v : S64) :
    b.add c v = b.set c (b.comp c + v) := by
  have hv : Function.update b.valid c true = b.valid := by rw [← hc]; exact Function.update_eq_self c _
  simp [Breakdown.add, Breakdown.set, hv]

/-- A data phase sets nothing, or splits its span into the time on the data and the wait. -/
theorem dataPhase_cases (first done next busyNs : U64) (busyC waitC : Comp) (b : Breakdown) :
    dataPhase first done next busyNs busyC waitC b = (false, b) ∨
    ∃ busy, dataPhase first done next busyNs busyC waitC b =
      (true, (b.set busyC busy).set waitC (d done first - busy)) := by
  simp only [dataPhase]
  split_ifs
  · exact Or.inl rfl
  · exact Or.inr ⟨_, rfl⟩
  · exact Or.inr ⟨_, rfl⟩

/-- What the data phase of a read leaves of its completion: the whole span, or what follows the
data. -/
theorem readDataPhase_cases (h : HostRec) (b : Breakdown) :
    readDataPhase h b = b.set .trCmpl (d (h.ts .rspProc) (h.ts .c2hProc)) ∨
    ∃ busy, readDataPhase h b =
      ((b.set .hostData busy).set .hostWait (d (h.ts .c2hDone) (h.ts .c2hProc) - busy)).set .trCmpl
        (d (h.ts .rspProc) (h.ts .c2hDone)) := by
  simp only [readDataPhase]
  rcases dataPhase_cases (h.ts .c2hProc) (h.ts .c2hDone) (h.ts .rspProc) h.c2hBusyNs .hostData
    .hostWait b with hp | ⟨busy, hp⟩
  · left; rw [hp]; rfl
  · right; exact ⟨busy, by rw [hp]; rfl⟩

theorem readDataPhase_mainSum (h : HostRec) {b : Breakdown} (h1 : b.valid .hostData = false)
    (h2 : b.valid .hostWait = false) (h3 : b.valid .trCmpl = false) :
    mainSum (readDataPhase h b) = mainSum b + d (h.ts .rspProc) (h.ts .c2hProc) := by
  rcases readDataPhase_cases h b with hp | ⟨busy, hp⟩ <;> rw [hp]
  · simp [mainSum_set, weight, h3, Comp.main, ntpComps]
  · simp only [mainSum_set, weight, set_valid, set_comp, h1, h2, h3, Comp.main, ntpComps]
    simp [d]
    ring

theorem readDataPhase_valid (h : HostRec) (b : Breakdown) {c : Comp} (h1 : c ≠ .hostData)
    (h2 : c ≠ .hostWait) (h3 : c ≠ .trCmpl) : (readDataPhase h b).valid c = b.valid c := by
  rcases readDataPhase_cases h b with hp | ⟨busy, hp⟩ <;> rw [hp] <;> simp [h1, h2, h3]

theorem readDataPhase_e2e (h : HostRec) (b : Breakdown) :
    (readDataPhase h b).comp .e2e = b.comp .e2e := by
  rcases readDataPhase_cases h b with hp | ⟨busy, hp⟩ <;> rw [hp] <;> simp

/-- Over TCP, the components of the host side alone add up to the end-to-end time. -/
theorem hostSide_mainSum (h : HostRec) {b : Breakdown} (hb : ∀ c, b.valid c = false) :
    mainSum (hostSide h b) = (hostSide h b).comp .e2e := by
  have hr := (commonHost_valid h b (c := .remote) rfl).trans (hb _)
  have hx := (commonHost_valid h b (c := .hostRx) rfl).trans (hb _)
  have ht := (commonHost_valid h b (c := .trCmpl) rfl).trans (hb _)
  have hd := (commonHost_valid h b (c := .hostData) rfl).trans (hb _)
  have hw := (commonHost_valid h b (c := .hostWait) rfl).trans (hb _)
  have hs := commonHost_mainSum h hb
  have he := commonHost_e2e h b
  simp only [hostSide, commonHost_ioClass]
  cases b.ioClass with
  | read =>
    simp only
    rw [readDataPhase_e2e, readDataPhase_mainSum] <;>
    simp only [mainSum_set, weight, set_valid, set_comp, hr, hx, ht, hd, hw, hs, he, Comp.main,
      ntpComps]
    all_goals simp [d]
    ring
  | writeInline =>
    simp only [mainSum_set, weight, set_valid, set_comp, hr, hx, ht, hs, he, Comp.main, ntpComps]
    simp [d]
    ring
  | writeR2t =>
    rw [add_eq_set (commonHost_valid_trSub h b)]
    simp only [mainSum_set, weight, set_valid, set_comp, hr, hx, ht, hs, he, Comp.main, ntpComps,
      commonHost_valid_trSub]
    simp [d]
    ring

theorem ofTarget_ne {c : Comp} (hc : c.ofTarget = true) :
    c.blkLayer = false ∧ c ≠ .remote ∧ c ≠ .hostRx ∧ c ≠ .trCmpl ∧ c ≠ .hostData ∧ c ≠ .hostWait ∧
      c ≠ .trSub := by
  revert hc
  cases c <;> decide

theorem hostSide_form (h : HostRec) {b : Breakdown} (hb : ∀ c, b.valid c = false) :
    HostForm (hostSide h b) := by
  simp only [hostSide, commonHost_ioClass]
  constructor
  · cases b.ioClass with
    | read => simp [readDataPhase_valid]
    | writeInline => simp
    | writeR2t => simp
  · intro c hc
    obtain ⟨h1, h2, h3, h4, h5, h6, h7⟩ := ofTarget_ne hc
    have hv : (commonHost h b).valid c = false := by rw [commonHost_valid h b h1, hb]
    cases b.ioClass with
    | read =>
      simp only
      rw [readDataPhase_valid h _ h5 h6 h4]
      simp [h2, h3, hv]
    | writeInline => simp [h2, h3, h4, hv]
    | writeR2t =>
      rw [add_eq_set (commonHost_valid_trSub h b)]
      simp [h2, h3, h4, h7, hv]

/-- Over RDMA, the components of the host side alone add up to the end-to-end time. -/
theorem rdmaHostSide_mainSum (h : HostRec) {b : Breakdown} (hb : ∀ c, b.valid c = false) :
    mainSum (rdmaHostSide h b) = (rdmaHostSide h b).comp .e2e := by
  have hr := (commonHost_valid h b (c := .remote) rfl).trans (hb _)
  have hx := (commonHost_valid h b (c := .hostRx) rfl).trans (hb _)
  have ht := (commonHost_valid h b (c := .trCmpl) rfl).trans (hb _)
  simp only [rdmaHostSide, mainSum_set, weight, set_valid, set_comp, commonHost_mainSum h hb,
    commonHost_e2e, hr, hx, ht, Comp.main, ntpComps]
  simp [d]
  ring

theorem rdmaHostSide_form (h : HostRec) {b : Breakdown} (hb : ∀ c, b.valid c = false) :
    HostForm (rdmaHostSide h b) := by
  refine ⟨by simp [rdmaHostSide], fun c hc => ?_⟩
  obtain ⟨h1, h2, h3, h4, -⟩ := ofTarget_ne hc
  simp [rdmaHostSide, h2, h3, h4, commonHost_valid h b h1, hb]

/-! ## The target side -/

theorem weight_clear (b : Breakdown) (c : Comp) :
    weight { b with valid := Function.update b.valid c false, comp := Function.update b.comp c 0 } =
      Function.update (weight b) c 0 := by
  funext x
  by_cases hx : x = c
  · subst hx; simp [weight]
  · simp [weight, Function.update_of_ne hx]

/-- Splitting the remote component takes the target's residence out of the sum. -/
theorem splitRemote_mainSum {b : Breakdown} (hr : b.valid .remote = true)
    (hn : b.valid .net = false) (residence : S64) :
    mainSum (splitRemote residence b) = mainSum b - residence := by
  have h1 : mainSum (splitRemote residence b) =
      mainSum (b.set .net (b.comp .remote - residence)) +
        (0 - weight (b.set .net (b.comp .remote - residence)) .remote) := by
    rw [mainSum_eq_sum, splitRemote, weight_clear, sum_update, mainSum_eq_sum]
  rw [h1, mainSum_set]
  simp [weight, hr, hn, Comp.main, ntpComps]
  ring

/-- The details do not count, so they leave the sum alone. -/
theorem backendDetails_mainSum (T : TgtTs → U64) (b : Breakdown) :
    mainSum (backendDetails T b) = mainSum b := by
  simp only [backendDetails]
  split_ifs
  · rfl
  · simp [mainSum_set, weight, Comp.main, ntpComps]

theorem backendDetails_e2e (T : TgtTs → U64) (b : Breakdown) :
    (backendDetails T b).comp .e2e = b.comp .e2e := by
  simp only [backendDetails]
  split_ifs <;> simp

theorem splitRemote_e2e (residence : S64) (b : Breakdown) :
    (splitRemote residence b).comp .e2e = b.comp .e2e := by
  simp [splitRemote]

/-- What the data phase of a write leaves of its submission. -/
theorem writeDataPhase_cases (t : TgtRec) (b : Breakdown) :
    writeDataPhase t b = (d (t.ts .exec) (t.ts .dataProc), b) ∨
    ∃ busy, writeDataPhase t b = (d (t.ts .exec) (t.ts .dataDone),
      (b.set .tgtData busy).set .tgtWait (d (t.ts .dataDone) (t.ts .dataProc) - busy)) := by
  simp only [writeDataPhase]
  rcases dataPhase_cases (t.ts .dataProc) (t.ts .dataDone) (t.ts .exec) t.h2cBusyNs .tgtData
    .tgtWait b with hp | ⟨busy, hp⟩
  · left; rw [hp]; rfl
  · right; exact ⟨busy, by rw [hp]; rfl⟩

/-- Over TCP, the target's components take the place of the remote one. -/
theorem targetSide_mainSum (t : TgtRec) {b : Breakdown} (hb : HostForm b) :
    mainSum (targetSide t b) = mainSum b := by
  have hr := hb.remote
  have hn := hb.target .net rfl
  have h1 := hb.target .tgtBe rfl
  have h2 := hb.target .tgtRx rfl
  have h3 := hb.target .tgtSub rfl
  have h4 := hb.target .tgtCmpl rfl
  have h5 := hb.target .tgtData rfl
  have h6 := hb.target .tgtWait rfl
  simp only [targetSide, set_ioClass]
  rw [backendDetails_mainSum]
  cases b.ioClass with
  | read | writeInline =>
    rw [splitRemote_mainSum (by simp [hr]) (by simp [hn])]
    simp only [mainSum_set, weight, set_valid, set_comp, h1, h2, h3, h4, Comp.main, ntpComps]
    simp [d]
    ring
  | writeR2t =>
    simp only
    rcases writeDataPhase_cases t ((b.set .tgtBe (d (t.ts .complete) (t.ts .exec))).set .tgtRx
      (d (t.ts .cmdProc) (t.ts .cmdArr) + d (t.ts .dataProc) (t.ts .dataArr))) with hp | ⟨busy, hp⟩
    all_goals
      rw [hp, splitRemote_mainSum (by simp [hr]) (by simp [hn])]
      simp only [mainSum_set, weight, set_valid, set_comp, h1, h2, h3, h4, h5, h6, Comp.main, ntpComps]
      simp [d]
      ring

theorem targetSide_e2e (t : TgtRec) (b : Breakdown) : (targetSide t b).comp .e2e = b.comp .e2e := by
  simp only [targetSide, set_ioClass]
  rw [backendDetails_e2e, splitRemote_e2e]
  cases b.ioClass with
  | read | writeInline => simp
  | writeR2t =>
    simp only
    rcases writeDataPhase_cases t ((b.set .tgtBe (d (t.ts .complete) (t.ts .exec))).set .tgtRx
      (d (t.ts .cmdProc) (t.ts .cmdArr) + d (t.ts .dataProc) (t.ts .dataArr))) with hp | ⟨busy, hp⟩
    all_goals
      rw [hp]
      simp

theorem rdmaSubmission_mainSum (fetch : Bool) (T : TgtTs → U64) {b : Breakdown}
    (h1 : b.valid .tgtSub = false) :
    mainSum (rdmaSubmission fetch T b) =
      mainSum b + d (T .exec) (T .cmdProc) - if fetch then d (T .dataProc) (T .r2tSent) else 0 := by
  cases fetch with
  | false => simp [rdmaSubmission, mainSum_set, weight, h1, Comp.main, ntpComps]
  | true =>
    have hc := mainSum_congr (b := b.set .tgtSub (d (T .r2tSent) (T .cmdProc) + d (T .exec) (T .dataProc)))
      (a := { b.set .tgtSub (d (T .r2tSent) (T .cmdProc) + d (T .exec) (T .dataProc)) with
        ioClass := .writeR2t }) rfl rfl
    simp only [rdmaSubmission, if_true, mainSum_set _ .netData, hc]
    simp [mainSum_set, weight, h1, Comp.main, ntpComps, d]
    ring

theorem rdmaSubmission_valid (fetch : Bool) (T : TgtTs → U64) (b : Breakdown) {c : Comp}
    (h1 : c ≠ .tgtSub) (h2 : c ≠ .netData) : (rdmaSubmission fetch T b).valid c = b.valid c := by
  cases fetch <;> simp [rdmaSubmission, h1, h2]

theorem rdmaReadTransfer_mainSum (t : TgtRec) (T : TgtTs → U64) (b : Breakdown) :
    mainSum (rdmaReadTransfer t T b) = mainSum b := by
  simp only [rdmaReadTransfer]
  split_ifs
  · simp [mainSum_set, weight, Comp.main, ntpComps]
  · rfl

theorem rdmaReadTransfer_valid (t : TgtRec) (T : TgtTs → U64) (b : Breakdown) {c : Comp}
    (h2 : c ≠ .netData) : (rdmaReadTransfer t T b).valid c = b.valid c := by
  simp only [rdmaReadTransfer]
  split_ifs <;> simp [h2]

/-- Over RDMA, the target's components take the place of the remote one; the fetch of a write's data
is neither the target's nor counted twice. -/
theorem rdmaSplit_mainSum (t : TgtRec) (T : TgtTs → U64) {b : Breakdown} (hb : HostForm b) :
    mainSum (rdmaSplit t T b) = mainSum b := by
  have hr := hb.remote
  have hn := hb.target .net rfl
  have h1 := hb.target .tgtBe rfl
  have h2 := hb.target .tgtRx rfl
  have h3 := hb.target .tgtSub rfl
  have h4 := hb.target .tgtCmpl rfl
  simp only [rdmaSplit]
  rw [backendDetails_mainSum, splitRemote_mainSum]
  · simp only [mainSum_set, weight, rdmaReadTransfer_mainSum]
    rw [rdmaSubmission_mainSum _ _ (by simp [h3])]
    simp [rdmaReadTransfer_valid, rdmaSubmission_valid, mainSum_set, weight, h1, h2, h4, Comp.main,
      ntpComps, d]
    ring
  · simp [rdmaReadTransfer_valid, rdmaSubmission_valid, hr]
  · simp [rdmaReadTransfer_valid, rdmaSubmission_valid, hn]

theorem rdmaSplit_e2e (t : TgtRec) (T : TgtTs → U64) (b : Breakdown) :
    (rdmaSplit t T b).comp .e2e = b.comp .e2e := by
  simp only [rdmaSplit]
  rw [backendDetails_e2e, splitRemote_e2e]
  simp only [rdmaReadTransfer, rdmaSubmission]
  split_ifs <;> simp

/-! ## The details of the back end -/

/-- The back-end details are set together or not at all, and split the target subsystem time. -/
def BackendSplit (b : Breakdown) : Prop :=
  b.valid .tgtBeSub = true ∨ b.valid .tgtDev = true ∨ b.valid .tgtBeCmpl = true →
    b.valid .tgtBeSub = true ∧ b.valid .tgtDev = true ∧ b.valid .tgtBeCmpl = true ∧
      b.comp .tgtBeSub + b.comp .tgtDev + b.comp .tgtBeCmpl = b.comp .tgtBe

theorem BackendSplit.of_invalid {b : Breakdown} (h1 : b.valid .tgtBeSub = false)
    (h2 : b.valid .tgtDev = false) (h3 : b.valid .tgtBeCmpl = false) : BackendSplit b := by
  intro h
  simp [h1, h2, h3] at h

theorem BackendSplit.congr {b b' : Breakdown} (hb : BackendSplit b) (hv : b'.valid = b.valid)
    (hc : b'.comp = b.comp) : BackendSplit b' := by
  unfold BackendSplit
  rw [hv, hc]
  exact hb

theorem HostForm.backendSplit {b : Breakdown} (hb : HostForm b) : BackendSplit b :=
  .of_invalid (hb.target _ rfl) (hb.target _ rfl) (hb.target _ rfl)

theorem backendDetails_split (T : TgtTs → U64) {b : Breakdown} (h1 : b.valid .tgtBeSub = false)
    (h2 : b.valid .tgtDev = false) (h3 : b.valid .tgtBeCmpl = false)
    (hbe : b.comp .tgtBe = d (T .complete) (T .exec)) : BackendSplit (backendDetails T b) := by
  simp only [backendDetails]
  split_ifs
  · exact .of_invalid h1 h2 h3
  · intro _
    refine ⟨by simp, by simp, by simp, ?_⟩
    simp [hbe, d]

theorem splitRemote_valid (residence : S64) (b : Breakdown) {c : Comp} (h1 : c ≠ .remote)
    (h2 : c ≠ .net) : (splitRemote residence b).valid c = b.valid c := by
  simp [splitRemote, Function.update_of_ne h1, h2]

theorem splitRemote_comp (residence : S64) (b : Breakdown) {c : Comp} (h1 : c ≠ .remote)
    (h2 : c ≠ .net) : (splitRemote residence b).comp c = b.comp c := by
  simp [splitRemote, Function.update_of_ne h1, h2]

theorem targetSide_backendSplit (t : TgtRec) {b : Breakdown} (hb : HostForm b) :
    BackendSplit (targetSide t b) := by
  have h1 := hb.target .tgtBeSub rfl
  have h2 := hb.target .tgtDev rfl
  have h3 := hb.target .tgtBeCmpl rfl
  simp only [targetSide, set_ioClass]
  cases b.ioClass with
  | read | writeInline =>
    apply backendDetails_split <;> simp [splitRemote_valid, splitRemote_comp, h1, h2, h3]
  | writeR2t =>
    simp only
    rcases writeDataPhase_cases t ((b.set .tgtBe (d (t.ts .complete) (t.ts .exec))).set .tgtRx
      (d (t.ts .cmdProc) (t.ts .cmdArr) + d (t.ts .dataProc) (t.ts .dataArr))) with hp | ⟨busy, hp⟩
    all_goals
      rw [hp]
      apply backendDetails_split <;> simp [splitRemote_valid, splitRemote_comp, h1, h2, h3]

theorem rdmaSplit_backendSplit (t : TgtRec) (T : TgtTs → U64) {b : Breakdown} (hb : HostForm b) :
    BackendSplit (rdmaSplit t T b) := by
  have h1 := hb.target .tgtBeSub rfl
  have h2 := hb.target .tgtDev rfl
  have h3 := hb.target .tgtBeCmpl rfl
  simp only [rdmaSplit]
  apply backendDetails_split <;>
    simp [splitRemote_valid, splitRemote_comp, rdmaReadTransfer_valid, rdmaSubmission_valid, h1, h2, h3]

/-! ## The breakdown of a command -/

@[simp] theorem stage_comp (b : Breakdown) (s : Stage) (parts extras : List Comp) :
    (stage b s parts extras).comp = b.comp := by
  unfold stage; split_ifs <;> rfl

@[simp] theorem stage_valid (b : Breakdown) (s : Stage) (parts extras : List Comp) :
    (stage b s parts extras).valid = b.valid := by
  unfold stage; split_ifs <;> rfl

@[simp] theorem stages_comp (b : Breakdown) : (stages b).comp = b.comp := by simp [stages]

@[simp] theorem stages_valid (b : Breakdown) : (stages b).valid = b.valid := by simp [stages]

/-- What `ntp_breakdown` promises of its components. -/
def AddsUp (b : Breakdown) : Prop := mainSum b = b.comp .e2e ∧ BackendSplit b

theorem AddsUp.congr {b b' : Breakdown} (hb : AddsUp b) (hv : b'.valid = b.valid)
    (hc : b'.comp = b.comp) : AddsUp b' :=
  ⟨by rw [mainSum_congr hv hc, hc]; exact hb.1, hb.2.congr hv hc⟩

/-- The RDMA target side either leaves the breakdown alone or splits it, with the posting of the
response seen or estimated. -/
theorem rdmaTargetSide_cases (t : TgtRec) (b : Breakdown) :
    rdmaTargetSide t b = (false, b) ∨ ∃ T, rdmaTargetSide t b = (true, rdmaSplit t T b) ∨
      rdmaTargetSide t b = (true, rdmaSplit t T { b with postEstimated := true }) := by
  simp only [rdmaTargetSide]
  split_ifs
  · exact Or.inl rfl
  · exact Or.inl rfl
  · exact Or.inr ⟨_, Or.inr rfl⟩
  · exact Or.inr ⟨_, Or.inr rfl⟩
  · exact Or.inr ⟨_, Or.inl rfl⟩

theorem rdmaTargetSide_addsUp (t : TgtRec) {b : Breakdown} (hb : HostForm b) (hs : AddsUp b) :
    AddsUp (rdmaTargetSide t b).2 := by
  rcases rdmaTargetSide_cases t b with h | ⟨T, h | h⟩ <;> rw [h]
  · exact hs
  · refine ⟨?_, rdmaSplit_backendSplit t T hb⟩
    rw [rdmaSplit_mainSum t T hb, rdmaSplit_e2e, hs.1]
  · have hb' : HostForm { b with postEstimated := true } := ⟨hb.remote, hb.target⟩
    refine ⟨?_, rdmaSplit_backendSplit t T hb'⟩
    rw [rdmaSplit_mainSum t T hb', rdmaSplit_e2e]
    exact (mainSum_congr rfl rfl).trans hs.1

theorem rdmaJoin_addsUp (h : HostRec) (t : Option TgtRec) {b : Breakdown} (hb : HostForm b)
    (hs : AddsUp b) : AddsUp (rdmaJoin h t b).2 := by
  cases t with
  | none => exact hs
  | some t =>
    have ht := rdmaTargetSide_addsUp t hb hs
    simp only [rdmaJoin]
    split_ifs
    · exact ht.congr rfl rfl
    · exact ht
    · exact hs

theorem tcpJoin_addsUp (t : Option TgtRec) {b : Breakdown} (hb : HostForm b) (hs : AddsUp b) :
    AddsUp (tcpJoin t b).2 := by
  cases t with
  | none => exact hs
  | some t =>
    have ht : AddsUp (targetSide t b) :=
      ⟨by rw [targetSide_mainSum t hb, targetSide_e2e, hs.1], targetSide_backendSplit t hb⟩
    simp only [tcpJoin]
    split_ifs
    · exact ht.congr rfl rfl
    · exact hs

/-- Unless the host record is incomplete, its breakdown adds up. -/
theorem ntpBreakdown_addsUp (h : HostRec) (t : Option TgtRec)
    (hok : (ntpBreakdown h t).1 ≠ .incompleteHost) : AddsUp (ntpBreakdown h t).2 := by
  have hblank : ∀ c, ({ ioClass := ntpIoClassOf h } : Breakdown).valid c = false := fun _ => rfl
  revert hok
  simp only [ntpBreakdown]
  split_ifs
  · exact fun hok => absurd rfl hok
  · intro _
    have hf := rdmaHostSide_form h hblank
    exact (rdmaJoin_addsUp h t hf ⟨rdmaHostSide_mainSum h hblank, hf.backendSplit⟩).congr
      (stages_valid _) (stages_comp _)
  · exact fun hok => absurd rfl hok
  · intro _
    have hf := hostSide_form h hblank
    exact (tcpJoin_addsUp t hf ⟨hostSide_mainSum h hblank, hf.backendSplit⟩).congr
      (stages_valid _) (stages_comp _)

/-- Whatever the transport, the flags and the timestamps: unless the host record is incomplete, the
valid main components add up to the end-to-end latency, and the back-end details, when one is valid,
are all valid and add up to the target subsystem time. -/
theorem breakdown_components_add_up (h : HostRec) (t : Option TgtRec)
    (hok : (ntpBreakdown h t).1 ≠ .incompleteHost) :
    mainSum (ntpBreakdown h t).2 = (ntpBreakdown h t).2.comp .e2e ∧
    ((ntpBreakdown h t).2.valid .tgtBeSub = true ∨ (ntpBreakdown h t).2.valid .tgtDev = true ∨
        (ntpBreakdown h t).2.valid .tgtBeCmpl = true →
      (ntpBreakdown h t).2.valid .tgtBeSub = true ∧ (ntpBreakdown h t).2.valid .tgtDev = true ∧
      (ntpBreakdown h t).2.valid .tgtBeCmpl = true ∧
      (ntpBreakdown h t).2.comp .tgtBeSub + (ntpBreakdown h t).2.comp .tgtDev +
        (ntpBreakdown h t).2.comp .tgtBeCmpl = (ntpBreakdown h t).2.comp .tgtBe) :=
  ntpBreakdown_addsUp h t hok

/-- A read over TCP, as its host records it. -/
def exampleReadHost : HostRec where
  ts := fun
    | .start => 1000
    | .queueRq => 1100
    | .cmdSent => 1300
    | .c2hArr => 6300
    | .c2hProc => 6500
    | .rspArr => 6900
    | .rspProc => 7000
    | .nvmeDone => 7100
    | .blkDone => 7300
    | _ => 0

/-- The same read, as its target records it, on another clock. -/
def exampleReadTarget : TgtRec where
  ts := fun
    | .cmdArr => 50000
    | .cmdProc => 50100
    | .exec => 50300
    | .beIssue => 50350
    | .beDone => 53350
    | .complete => 53400
    | .c2hSent => 53600
    | .rspSent => 53700
    | _ => 0

theorem breakdown_components_add_up_read :
    (ntpBreakdown exampleReadHost (some exampleReadTarget)).1 ≠ .incompleteHost ∧
    mainSum (ntpBreakdown exampleReadHost (some exampleReadTarget)).2 =
      (ntpBreakdown exampleReadHost (some exampleReadTarget)).2.comp .e2e :=
  ⟨by decide,
    (breakdown_components_add_up exampleReadHost (some exampleReadTarget) (by decide)).1⟩

end Ntprof
