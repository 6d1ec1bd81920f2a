import Ntprof.Proofs.ModelProofs

/-!
# Proofs: only differences of one machine's clock matter

The two machines' clocks have nothing in common. `Shiftable o ts` says that the events of a record
could have been stamped by a clock that is `o` ahead; the breakdown of the two records is then the
same, whatever the offset of either side.
-/

namespace Ntprof

/-- The timestamp of an event on a clock that is `o` ahead; an event not seen stays so. -/
def shiftTs (o : Int) (x : U64) : U64 := if x = 0 then 0 else x + BitVec.ofInt 64 o

/-- Every event that was seen has a timestamp in `1..2^64-1` on the shifted clock too. -/
def Shiftable {ι : Type} (o : Int) (ts : ι → U64) : Prop :=
  ∀ i, ts i ≠ 0 → 1 ≤ ((ts i).toNat : Int) + o ∧ ((ts i).toNat : Int) + o ≤ 2 ^ 64 - 1

def HostRec.shift (o : Int) (h : HostRec) : HostRec := { h with ts := fun i => shiftTs o (h.ts i) }

def TgtRec.shift (o : Int) (t : TgtRec) : TgtRec := { t with ts := fun i => shiftTs o (t.ts i) }

/-! ## One timestamp, and two of the same clock -/

section

variable {ι : Type} {o : Int} {ts : ι → U64}

theorem shiftTs_toNat (hs : Shiftable o ts) {i : ι} (hi : ts i ≠ 0) :
    ((shiftTs o (ts i)).toNat : Int) = (ts i).toNat + o := by
  obtain ⟨h1, h2⟩ := hs i hi
  have ho : ((BitVec.ofInt 64 o).toNat : Int) = o % 2 ^ 64 := by
    rw [BitVec.toNat_ofInt]
    omega
  rw [shiftTs, if_neg hi, BitVec.toNat_add]
  push_cast
  rw [ho]
  omega

theorem shiftTs_eq_zero (hs : Shiftable o ts) (i : ι) : shiftTs o (ts i) = 0 ↔ ts i = 0 := by
  constructor
  · intro h
    by_contra hi
    have hn := shiftTs_toNat hs hi
    rw [h] at hn
    have := (hs i hi).1
    simp at hn
    omega
  · intro h
    simp [shiftTs, h]

theorem shiftTs_lt (hs : Shiftable o ts) {i j : ι} (hi : ts i ≠ 0) (hj : ts j ≠ 0) :
    shiftTs o (ts i) < shiftTs o (ts j) ↔ ts i < ts j := by
  have h1 := shiftTs_toNat hs hi
  have h2 := shiftTs_toNat hs hj
  rw [BitVec.lt_def, BitVec.lt_def]
  omega

theorem shiftTs_le (hs : Shiftable o ts) {i j : ι} (hi : ts i ≠ 0) (hj : ts j ≠ 0) :
    shiftTs o (ts i) ≤ shiftTs o (ts j) ↔ ts i ≤ ts j := by
  rw [← BitVec.not_lt, ← BitVec.not_lt, shiftTs_lt hs hj hi]

/-- The difference of two events of one clock does not depend on its offset. -/
theorem d_shiftTs (o : Int) {x y : U64} (hx : x ≠ 0) (hy : y ≠ 0) :
    d (shiftTs o x) (shiftTs o y) = d x y := by
  rw [shiftTs, shiftTs, if_neg hx, if_neg hy]
  exact add_sub_add_right_eq_sub x y _

theorem haveAll_shiftTs (hs : Shiftable o ts) (idx : List ι) :
    haveAll (fun i => shiftTs o (ts i)) idx = haveAll ts idx := by
  induction idx with
  | nil => rfl
  | cons i idx ih =>
    have hi : (shiftTs o (ts i) != 0) = (ts i != 0) := by
      rw [Bool.eq_iff_iff, bne_iff_ne, bne_iff_ne, not_iff_not]
      exact shiftTs_eq_zero hs i
    simp only [haveAll, List.all_cons, hi] at ih ⊢
    rw [ih]

theorem ne_zero_of_haveAll {idx : List ι} (h : haveAll ts idx = true) {i : ι} (hi : i ∈ idx) :
    ts i ≠ 0 := by
  simpa using List.all_eq_true.1 h i hi

end

/-! ## The host side -/

section

variable {o : Int} {h : HostRec}

theorem commonHost_shift (hs : Shiftable o h.ts) (hq : h.ts .queueRq ≠ 0) (hc : h.ts .cmdSent ≠ 0)
    (hr : h.ts .rspProc ≠ 0) (hb : h.ts .blkDone ≠ 0) (b : Breakdown) :
    commonHost (h.shift o) b = commonHost h b := by
  have hst : (shiftTs o (h.ts .start) ≠ 0 ∧ shiftTs o (h.ts .start) ≤ shiftTs o (h.ts .queueRq)) ↔
      (h.ts .start ≠ 0 ∧ h.ts .start ≤ h.ts .queueRq) := by
    rw [ne_eq, shiftTs_eq_zero hs]
    exact and_congr_right fun h1 => shiftTs_le hs h1 hq
  have hn : shiftTs o (h.ts .nvmeDone) ≠ 0 ↔ h.ts .nvmeDone ≠ 0 := not_congr (shiftTs_eq_zero hs _)
  simp only [commonHost, HostRec.shift, hst, hn, d_shiftTs o hc hq, d_shiftTs o hb hr,
    d_shiftTs o hb hq]
  split_ifs with h1 h2 h2
  · simp only [d_shiftTs o h1 hr, d_shiftTs o hq h2.1, d_shiftTs o hb h2.1]
  · simp only [d_shiftTs o h1 hr]
  · simp only [d_shiftTs o hq h2.1, d_shiftTs o hb h2.1]
  · rfl

/-- A data phase compares and subtracts the events of one machine only. -/
theorem dataPhase_shift {ι : Type} {ts : ι → U64} (hs : Shiftable o ts) {first done next : ι}
    (hf : ts first ≠ 0) (hn : ts next ≠ 0) (busyNs : U64) (busyC waitC : Comp) (b : Breakdown) :
    dataPhase (shiftTs o (ts first)) (shiftTs o (ts done)) (shiftTs o (ts next)) busyNs busyC waitC b =
      dataPhase (ts first) (ts done) (ts next) busyNs busyC waitC b := by
  unfold dataPhase
  by_cases hd : ts done = 0
  · simp [hd, shiftTs]
  · simp only [shiftTs_eq_zero hs, shiftTs_lt hs hd hf, shiftTs_lt hs hn hd, d_shiftTs o hd hf]

/-- A data phase is found only where its end was seen. -/
theorem dataPhase_found {first done next busyNs : U64} {busyC waitC : Comp} {b : Breakdown}
    (hf : (dataPhase first done next busyNs busyC waitC b).1 = true) : done ≠ 0 := by
  intro hd
  simp [dataPhase, hd] at hf

theorem readDataPhase_shift (hs : Shiftable o h.ts) (hf : h.ts .c2hProc ≠ 0)
    (hn : h.ts .rspProc ≠ 0) (b : Breakdown) :
    readDataPhase (h.shift o) b = readDataPhase h b := by
  simp only [readDataPhase, HostRec.shift, dataPhase_shift hs hf hn]
  split_ifs with hp
  · rw [d_shiftTs o hn (dataPhase_found hp)]
  · rw [d_shiftTs o hn hf]

theorem hostComplete_shift (hs : Shiftable o h.ts) (c : IoClass) :
    hostComplete (h.shift o) c = hostComplete h c := by
  cases c <;> exact haveAll_shiftTs hs _

theorem hostSide_shift (hs : Shiftable o h.ts) {b : Breakdown}
    (hc : hostComplete h b.ioClass = true) : hostSide (h.shift o) b = hostSide h b := by
  cases hio : b.ioClass with
  | read =>
    simp only [hio, hostComplete] at hc
    have hne := fun i (hi : i ∈ hostReqRead) => ne_zero_of_haveAll hc hi
    have hq := hne .queueRq (by decide)
    have hcs := hne .cmdSent (by decide)
    have hca := hne .c2hArr (by decide)
    have hcp := hne .c2hProc (by decide)
    have hrp := hne .rspProc (by decide)
    have hbd := hne .blkDone (by decide)
    simp only [hostSide, commonHost_ioClass, hio]
    rw [commonHost_shift hs hq hcs hrp hbd, readDataPhase_shift hs hcp hrp]
    simp only [HostRec.shift, d_shiftTs o hca hcs, d_shiftTs o hcp hca]
  | writeInline =>
    simp only [hio, hostComplete] at hc
    have hne := fun i (hi : i ∈ hostReqInline) => ne_zero_of_haveAll hc hi
    have hq := hne .queueRq (by decide)
    have hcs := hne .cmdSent (by decide)
    have hra := hne .rspArr (by decide)
    have hrp := hne .rspProc (by decide)
    have hbd := hne .blkDone (by decide)
    simp only [hostSide, commonHost_ioClass, hio]
    rw [commonHost_shift hs hq hcs hrp hbd]
    simp only [HostRec.shift, d_shiftTs o hra hcs, d_shiftTs o hrp hra]
  | writeR2t =>
    simp only [hio, hostComplete] at hc
    have hne := fun i (hi : i ∈ hostReqR2t) => ne_zero_of_haveAll hc hi
    have hq := hne .queueRq (by decide)
    have hcs := hne .cmdSent (by decide)
    have hta := hne .r2tArr (by decide)
    have htp := hne .r2tProc (by decide)
    have hds := hne .dataStart (by decide)
    have hra := hne .rspArr (by decide)
    have hrp := hne .rspProc (by decide)
    have hbd := hne .blkDone (by decide)
    simp only [hostSide, commonHost_ioClass, hio]
    rw [commonHost_shift hs hq hcs hrp hbd]
    simp only [HostRec.shift, d_shiftTs o hds htp, d_shiftTs o hta hcs, d_shiftTs o hra hds,
      d_shiftTs o htp hta, d_shiftTs o hrp hra]

theorem rdmaHostSide_shift (hs : Shiftable o h.ts) (hc : haveAll h.ts hostReqRdma = true)
    (b : Breakdown) : rdmaHostSide (h.shift o) b = rdmaHostSide h b := by
  have hne := fun i (hi : i ∈ hostReqRdma) => ne_zero_of_haveAll hc hi
  have hq := hne .queueRq (by decide)
  have hcs := hne .cmdSent (by decide)
  have hra := hne .rspArr (by decide)
  have hrp := hne .rspProc (by decide)
  have hbd := hne .blkDone (by decide)
  simp only [rdmaHostSide]
  rw [commonHost_shift hs hq hcs hrp hbd]
  simp only [HostRec.shift, d_shiftTs o hra hcs, d_shiftTs o hrp hra]

end

/-! ## The target side -/

section

variable {o : Int} {t : TgtRec} {T : TgtTs → U64}

theorem backendDetails_shift (hs : Shiftable o T) (he : T .exec ≠ 0) (hc : T .complete ≠ 0)
    (b : Breakdown) : backendDetails (fun i => shiftTs o (T i)) b = backendDetails T b := by
  unfold backendDetails
  by_cases hi : T .beIssue = 0
  · simp [hi, shiftTs]
  by_cases hd : T .beDone = 0
  · simp [hd, shiftTs]
  simp only [shiftTs_eq_zero hs, shiftTs_lt hs hc hd, d_shiftTs o hi he, d_shiftTs o hd hi,
    d_shiftTs o hc hd]

theorem writeDataPhase_shift (hs : Shiftable o t.ts) (hp : t.ts .dataProc ≠ 0)
    (he : t.ts .exec ≠ 0) (b : Breakdown) : writeDataPhase (t.shift o) b = writeDataPhase t b := by
  simp only [writeDataPhase, TgtRec.shift, dataPhase_shift hs hp he]
  split_ifs with hf
  · rw [d_shiftTs o he (dataPhase_found hf)]
  · rw [d_shiftTs o he hp]

theorem targetComplete_shift (hs : Shiftable o t.ts) (c : IoClass) :
    targetComplete (t.shift o) c = targetComplete t c := by
  cases c <;> exact haveAll_shiftTs hs _

theorem targetSide_shift (hs : Shiftable o t.ts) {b : Breakdown}
    (hc : targetComplete t b.ioClass = true) : targetSide (t.shift o) b = targetSide t b := by
  cases hio : b.ioClass with
  | read =>
    simp only [hio, targetComplete] at hc
    have hne := fun i (hi : i ∈ tgtReqRead) => ne_zero_of_haveAll hc hi
    have hca := hne .cmdArr (by decide)
    have hcp := hne .cmdProc (by decide)
    have hex := hne .exec (by decide)
    have hco := hne .complete (by decide)
    have hse := hne .c2hSent (by decide)
    simp only [targetSide, set_ioClass, hio, TgtRec.shift]
    rw [backendDetails_shift hs hex hco]
    simp only [d_shiftTs o hco hex, d_shiftTs o hcp hca, d_shiftTs o hex hcp, d_shiftTs o hse hco,
      d_shiftTs o hse hca]
  | writeInline =>
    simp only [hio, targetComplete] at hc
    have hne := fun i (hi : i ∈ tgtReqInline) => ne_zero_of_haveAll hc hi
    have hca := hne .cmdArr (by decide)
    have hcp := hne .cmdProc (by decide)
    have hex := hne .exec (by decide)
    have hco := hne .complete (by decide)
    have hse := hne .rspSent (by decide)
    simp only [targetSide, set_ioClass, hio, TgtRec.shift]
    rw [backendDetails_shift hs hex hco]
    simp only [d_shiftTs o hco hex, d_shiftTs o hcp hca, d_shiftTs o hex hcp, d_shiftTs o hse hco,
      d_shiftTs o hse hca]
  | writeR2t =>
    simp only [hio, targetComplete] at hc
    have hne := fun i (hi : i ∈ tgtReqR2t) => ne_zero_of_haveAll hc hi
    have hca := hne .cmdArr (by decide)
    have hcp := hne .cmdProc (by decide)
    have hrs := hne .r2tSent (by decide)
    have hda := hne .dataArr (by decide)
    have hdp := hne .dataProc (by decide)
    have hex := hne .exec (by decide)
    have hco := hne .complete (by decide)
    have hse := hne .rspSent (by decide)
    simp only [targetSide, set_ioClass, hio, writeDataPhase_shift hs hdp hex]
    simp only [TgtRec.shift, d_shiftTs o hco hex, d_shiftTs o hcp hca,
      d_shiftTs o hdp hda, d_shiftTs o hrs hcp, d_shiftTs o hse hco, d_shiftTs o hrs hca,
      d_shiftTs o hse hda]
    rw [backendDetails_shift hs hex hco]

theorem tcpJoin_shift (hs : Shiftable o t.ts) (b : Breakdown) :
    tcpJoin (some (t.shift o)) b = tcpJoin (some t) b := by
  have hh : (t.shift o).hdr = t.hdr := rfl
  simp only [tcpJoin, targetComplete_shift hs, hh]
  split_ifs with hc
  · rw [targetSide_shift hs (Bool.and_eq_true_iff.1 hc).2]
  · rfl

theorem shiftTs_update (o : Int) (T : TgtTs → U64) (i : TgtTs) (x : U64) :
    (fun j => shiftTs o (Function.update T i x j)) =
      Function.update (fun j => shiftTs o (T j)) i (shiftTs o x) :=
  Function.comp_update (shiftTs o) T i x

/-- A clock stays shiftable when an event is forgotten or takes the time of another one. -/
theorem Shiftable.update (hs : Shiftable o T) (i : TgtTs) {x : U64} (hx : x = 0 ∨ ∃ j, x = T j) :
    Shiftable o (Function.update T i x) := by
  intro k hk
  by_cases hki : k = i
  · subst hki
    rw [Function.update_self] at hk ⊢
    rcases hx with rfl | ⟨j, rfl⟩
    · exact absurd rfl hk
    · exact hs j hk
  · rw [Function.update_of_ne hki] at hk ⊢
    exact hs k hk

theorem rdmaOwnPosting_shift (hs : Shiftable o T) :
    rdmaOwnPosting (fun i => shiftTs o (T i)) = fun i => shiftTs o (rdmaOwnPosting T i) := by
  have hc : (shiftTs o (T .sendDone) ≠ 0 ∧ shiftTs o (T .sendDone) < shiftTs o (T .rspSent)) ↔
      (T .sendDone ≠ 0 ∧ T .sendDone < T .rspSent) := by
    rw [ne_eq, shiftTs_eq_zero hs]
    refine and_congr_right fun h1 => ?_
    by_cases hr : T .rspSent = 0
    · -- nothing is before an event that was not seen
      simp [hr, shiftTs]
    · exact shiftTs_lt hs h1 hr
  unfold rdmaOwnPosting
  simp only [hc]
  split_ifs
  · rw [shiftTs_update, shiftTs_update]
    simp [shiftTs]
  · rfl

theorem Shiftable.rdmaOwnPosting (hs : Shiftable o T) : Shiftable o (rdmaOwnPosting T) := by
  unfold Ntprof.rdmaOwnPosting
  split_ifs
  · exact (hs.update _ (Or.inl rfl)).update _ (Or.inl rfl)
  · exact hs

theorem rdmaOwnPosting_of_ne (T : TgtTs → U64) {i : TgtTs} (h1 : i ≠ .rspSent) (h2 : i ≠ .c2hSent) :
    rdmaOwnPosting T i = T i := by
  unfold rdmaOwnPosting
  split_ifs
  · rw [Function.update_of_ne h2, Function.update_of_ne h1]
  · rfl

/-- The events `rdma_target_side` has made sure of when it splits the round trip. -/
structure RdmaComplete (t : TgtRec) (T : TgtTs → U64) : Prop where
  cmdArr : T .cmdArr ≠ 0
  cmdProc : T .cmdProc ≠ 0
  exec : T .exec ≠ 0
  complete : T .complete ≠ 0
  rspSent : T .rspSent ≠ 0
  fetch : t.hdr.has ntpFRdmaRead = true → T .r2tSent ≠ 0 ∧ T .dataProc ≠ 0

theorem rdmaSubmission_shift {fetch : Bool} (hp : T .cmdProc ≠ 0) (he : T .exec ≠ 0)
    (hf : fetch = true → T .r2tSent ≠ 0 ∧ T .dataProc ≠ 0) (b : Breakdown) :
    rdmaSubmission fetch (fun i => shiftTs o (T i)) b = rdmaSubmission fetch T b := by
  unfold rdmaSubmission
  cases fetch with
  | false => simp only [d_shiftTs o he hp, Bool.false_eq_true, if_false]
  | true =>
    obtain ⟨h1, h2⟩ := hf rfl
    simp only [d_shiftTs o h1 hp, d_shiftTs o he h2, d_shiftTs o h2 h1, if_true]

theorem rdmaReadTransfer_shift (hs : Shiftable o T) (b : Breakdown) :
    rdmaReadTransfer (t.shift o) (fun i => shiftTs o (T i)) b = rdmaReadTransfer t T b := by
  unfold rdmaReadTransfer
  have hh : (t.shift o).hdr = t.hdr := rfl
  simp only [hh, ne_eq, shiftTs_eq_zero hs]
  split_ifs with hc
  · rw [d_shiftTs o hc.2.2 hc.2.1]
  · rfl

theorem rdmaSplit_shift (hs : Shiftable o T) (hc : RdmaComplete t T) (b : Breakdown) :
    rdmaSplit (t.shift o) (fun i => shiftTs o (T i)) b = rdmaSplit t T b := by
  have hh : (t.shift o).hdr = t.hdr := rfl
  have hf : (if t.hdr.has ntpFRdmaRead = true then
      d (shiftTs o (T .dataProc)) (shiftTs o (T .r2tSent)) else 0) =
      if t.hdr.has ntpFRdmaRead = true then d (T .dataProc) (T .r2tSent) else 0 := by
    split_ifs with h1
    · rw [d_shiftTs o (hc.fetch h1).2 (hc.fetch h1).1]
    · rfl
  simp only [rdmaSplit, hh, hf, rdmaReadTransfer_shift hs,
    rdmaSubmission_shift hc.cmdProc hc.exec hc.fetch, d_shiftTs o hc.cmdProc hc.cmdArr,
    d_shiftTs o hc.complete hc.exec, d_shiftTs o hc.rspSent hc.complete,
    d_shiftTs o hc.rspSent hc.cmdArr]
  rw [backendDetails_shift hs hc.exec hc.complete]

theorem rdmaTargetSide_shift (hs : Shiftable o t.ts) (b : Breakdown) :
    rdmaTargetSide (t.shift o) b = rdmaTargetSide t b := by
  have hh : (t.shift o).hdr = t.hdr := rfl
  have hts : (t.shift o).ts = fun i => shiftTs o (t.ts i) := rfl
  have hown := hs.rdmaOwnPosting
  simp only [rdmaTargetSide, hh, hts, haveAll_shiftTs hs, shiftTs_eq_zero hs, rdmaOwnPosting_shift hs,
    shiftTs_eq_zero hown]
  by_cases hreq : (!haveAll t.ts tgtReqRdma) = true ∨ (t.hdr.has ntpFRdmaRead = true ∧
      (t.ts .r2tSent = 0 ∨ t.ts .dataProc = 0))
  · simp only [hreq, if_true]
  obtain ⟨hall, hfetch⟩ := not_or.1 hreq
  have hne := fun i (hi : i ∈ tgtReqRdma) => ne_zero_of_haveAll (by simpa using hall) hi
  have hcomp : ∀ T : TgtTs → U64, (∀ i, i ≠ .rspSent → i ≠ .c2hSent → T i = t.ts i) →
      T .rspSent ≠ 0 → RdmaComplete t T := by
    intro T hT hr
    constructor
    · rw [hT _ (by decide) (by decide)]
      exact hne .cmdArr (by decide)
    · rw [hT _ (by decide) (by decide)]
      exact hne .cmdProc (by decide)
    · rw [hT _ (by decide) (by decide)]
      exact hne .exec (by decide)
    · rw [hT _ (by decide) (by decide)]
      exact hne .complete (by decide)
    · exact hr
    · intro hf
      rw [hT _ (by decide) (by decide), hT _ (by decide) (by decide)]
      exact not_or.1 fun hx => hfetch ⟨hf, hx⟩
  have hkeep : ∀ i, i ≠ .rspSent → i ≠ .c2hSent → rdmaOwnPosting t.ts i = t.ts i :=
    fun i h1 h2 => rdmaOwnPosting_of_ne t.ts h1 h2
  -- an estimated posting takes the time of the completion
  have hest := hown.update .rspSent (Or.inr ⟨.complete, rfl⟩)
  have hco : rdmaOwnPosting t.ts .complete ≠ 0 := by
    rw [hkeep _ (by decide) (by decide)]
    exact hne .complete (by decide)
  simp only [hreq, if_false, ← shiftTs_update]
  split_ifs with hr hsd hread
  · rfl
  · have hup := hest.update .c2hSent (Or.inr ⟨.complete, rfl⟩)
    rw [rdmaSplit_shift hup]
    apply hcomp
    · intro i h1 h2
      rw [Function.update_of_ne h2, Function.update_of_ne h1, hkeep i h1 h2]
    · rw [Function.update_of_ne (by decide), Function.update_self]
      exact hco
  · rw [rdmaSplit_shift hest]
    apply hcomp
    · intro i h1 h2
      rw [Function.update_of_ne h1, hkeep i h1 h2]
    · rw [Function.update_self]
      exact hco
  · rw [rdmaSplit_shift hown (hcomp _ hkeep hr)]

theorem rdmaJoin_shift (h : HostRec) (hs : Shiftable o t.ts) (oh : Int) (b : Breakdown) :
    rdmaJoin (h.shift oh) (some (t.shift o)) b = rdmaJoin h (some t) b := by
  have hh : (t.shift o).hdr = t.hdr := rfl
  have hx : (h.shift oh).hdr = h.hdr := rfl
  simp only [rdmaJoin, hh, hx, rdmaTargetSide_shift hs]

end

/-- Moving the clock of either machine changes nothing of the breakdown. -/
theorem breakdown_clock_free (h : HostRec) (t : Option TgtRec) (oh ot : Int)
    (hh : Shiftable oh h.ts) (ht : ∀ r, t = some r → Shiftable ot r.ts) :
    ntpBreakdown (h.shift oh) (t.map (TgtRec.shift ot)) = ntpBreakdown h t := by
  have hhdr : (h.shift oh).hdr = h.hdr := rfl
  have hcls : ntpIoClassOf (h.shift oh) = ntpIoClassOf h := rfl
  have hall : ∀ idx, haveAll (h.shift oh).ts idx = haveAll h.ts idx := haveAll_shiftTs hh
  simp only [ntpBreakdown, hhdr, hcls, hall, hostComplete_shift hh]
  split_ifs with h1 h2 h2
  · rfl
  · rw [rdmaHostSide_shift hh (by simpa using h2)]
    cases t with
    | none => rfl
    | some t => simp only [Option.map_some, rdmaJoin_shift h (ht t rfl)]
  · rfl
  · rw [hostSide_shift hh (by simpa using h2)]
    cases t with
    | none => rfl
    | some t => simp only [Option.map_some, tcpJoin_shift (ht t rfl)]

theorem breakdown_clock_free_read :
    ntpBreakdown (exampleReadHost.shift 5000) (some (exampleReadTarget.shift (-40000))) =
      ntpBreakdown exampleReadHost (some exampleReadTarget) := by
  refine breakdown_clock_free exampleReadHost (some exampleReadTarget) 5000 (-40000) ?_ ?_
  · intro i
    cases i <;> decide
  · rintro r ⟨⟩ i
    cases i <;> decide

end Ntprof
