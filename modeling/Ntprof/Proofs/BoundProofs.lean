import Ntprof.Proofs.ModelProofs
import Ntprof.Lib.SignedSum

/-!
# Proofs: how large a component can get

A component is a sum of differences between timestamps of one machine; `Comp.reach` is how many. With
timestamps below `clockEnd` no component, and no sum of the main ones, leaves the signed range.
-/

namespace Ntprof

open SignedSum

/-- `2^59` ns, eighteen years of uptime. -/
def clockEnd : Nat := 2 ^ 59

/-- Every timestamp of the record is below `clockEnd`. -/
def InTime {ι : Type} (ts : ι → U64) : Prop := ∀ i, (ts i).toNat < clockEnd

/-- How many differences of timestamps a component is made of. -/
def Comp.reach : Comp → Nat
  | .trSub | .tgtRx | .tgtSub | .hostRx | .remote => 2
  | .net => 4
  | _ => 1

/-- Every component is as small as its `reach` says. -/
def Within (b : Breakdown) : Prop := ∀ c, AtMost (c.reach * clockEnd) (b.comp c)

theorem Within.set {b : Breakdown} (hb : Within b) {c : Comp} {v : S64}
    (hv : AtMost (c.reach * clockEnd) v) : Within (b.set c v) := by
  intro x
  rw [set_comp]
  split_ifs with hx
  · subst hx
    exact hv
  · exact hb x

theorem Within.congr {b b' : Breakdown} (hb : Within b) (hc : b'.comp = b.comp) : Within b' := by
  intro x
  rw [hc]
  exact hb x

/-- One difference. -/
theorem small_d {x y : U64} (hx : x.toNat < clockEnd) (hy : y.toNat < clockEnd) :
    AtMost (1 * clockEnd) (d x y) := by
  rw [Nat.one_mul]
  exact AtMost.diff (by decide) hx hy

/-- The sum of two differences. -/
theorem small_d_add {x y u v : U64} (hx : x.toNat < clockEnd) (hy : y.toNat < clockEnd)
    (hu : u.toNat < clockEnd) (hv : v.toNat < clockEnd) : AtMost (2 * clockEnd) (d x y + d u v) :=
  ((small_d hx hy).add (small_d hu hv)).mono (by decide)

/-- Setting a component to one difference. -/
theorem Within.setD {b : Breakdown} (hb : Within b) {c : Comp} {x y : U64} (hc : 1 ≤ c.reach)
    (hx : x.toNat < clockEnd) (hy : y.toNat < clockEnd) : Within (b.set c (d x y)) :=
  hb.set ((small_d hx hy).mono (Nat.mul_le_mul_right _ hc))

/-- Setting a component to a sum of two differences. -/
theorem Within.setD2 {b : Breakdown} (hb : Within b) {c : Comp} {x y u v : U64} (hc : 2 ≤ c.reach)
    (hx : x.toNat < clockEnd) (hy : y.toNat < clockEnd) (hu : u.toNat < clockEnd)
    (hv : v.toNat < clockEnd) : Within (b.set c (d x y + d u v)) :=
  hb.set ((small_d_add hx hy hu hv).mono (Nat.mul_le_mul_right _ hc))

theorem Within.setZero {b : Breakdown} (hb : Within b) (c : Comp) : Within (b.set c 0) :=
  hb.set (.zero _)

/-! ## The host side -/

theorem commonHost_within {h : HostRec} (hh : InTime h.ts) {b : Breakdown} (hb : Within b) :
    Within (commonHost h b) := by
  have h0 : Within ((b.set .trSub (d (h.ts .cmdSent) (h.ts .queueRq))).set .blkCmpl
      (d (h.ts .blkDone) (h.ts .rspProc))) :=
    (hb.setD (by decide) (hh _) (hh _)).setD (by decide) (hh _) (hh _)
  simp only [commonHost]
  split_ifs
  · exact ((h0.setD (by decide) (hh _) (hh _)).setD (by decide) (hh _) (hh _)).setD (by decide)
      (hh _) (hh _)
  · exact (h0.setD (by decide) (hh _) (hh _)).setD (by decide) (hh _) (hh _)
  · exact (h0.setD (by decide) (hh _) (hh _)).setD (by decide) (hh _) (hh _)
  · exact h0.setD (by decide) (hh _) (hh _)

theorem commonHost_trSub (h : HostRec) (b : Breakdown) :
    (commonHost h b).comp .trSub = d (h.ts .cmdSent) (h.ts .queueRq) := by
  simp only [commonHost]
  split_ifs <;> simp

/-- The time on the data is part of its span, so both parts of the span are small. -/
theorem dataPhase_within (first done next busyNs : U64) {busyC waitC : Comp} {b : Breakdown}
    (hd : done.toNat < clockEnd) (hb : Within b) (h1 : busyC.reach = 1) (h2 : waitC.reach = 1) :
    Within (dataPhase first done next busyNs busyC waitC b).2 := by
  simp only [dataPhase]
  by_cases hp : busyNs = 0 ∨ done = 0 ∨ done < first ∨ next < done
  · rw [if_pos hp]
    exact hb
  · rw [if_neg hp]
    have hle : first.toNat ≤ done.toNat := by
      have hx : ¬ done < first := fun hx => hp (Or.inr (Or.inr (Or.inl hx)))
      rw [BitVec.lt_def] at hx
      omega
    have hspan : (d done first).toNat < clockEnd := by
      rw [d, BitVec.toNat_sub_of_le (BitVec.le_def.2 hle)]
      omega
    have hbusy : (if d done first < busyNs then d done first else busyNs).toNat < clockEnd := by
      split_ifs with hlt
      · exact hspan
      · rw [BitVec.lt_def] at hlt
        omega
    have hz : (0 : U64).toNat < clockEnd := by decide
    refine (hb.set ?_).set ?_
    · rw [h1]
      simpa [d] using small_d hbusy hz
    · rw [h2]
      exact small_d hspan hbusy

theorem readDataPhase_within {h : HostRec} (hh : InTime h.ts) {b : Breakdown} (hb : Within b) :
    Within (readDataPhase h b) := by
  have hp : Within (dataPhase (h.ts .c2hProc) (h.ts .c2hDone) (h.ts .rspProc) h.c2hBusyNs .hostData
      .hostWait b).2 := dataPhase_within _ _ _ _ (hh .c2hDone) hb rfl rfl
  simp only [readDataPhase]
  split_ifs
  · exact hp.setD (by decide) (hh _) (hh _)
  · exact hp.setD (by decide) (hh _) (hh _)

theorem hostSide_within {h : HostRec} (hh : InTime h.ts) {b : Breakdown} (hb : Within b) :
    Within (hostSide h b) := by
  have hc := commonHost_within hh hb
  simp only [hostSide, commonHost_ioClass]
  cases b.ioClass with
  | read =>
    exact readDataPhase_within hh
      ((hc.setD (by decide) (hh _) (hh _)).setD (by decide) (hh _) (hh _))
  | writeInline =>
    exact ((hc.setD (by decide) (hh _) (hh _)).setD (by decide) (hh _) (hh _)).setZero _
  | writeR2t =>
    simp only
    rw [add_eq_set (commonHost_valid_trSub h b), commonHost_trSub]
    have h1 := hc.setD2 (c := .trSub) (by decide) (hh .cmdSent) (hh .queueRq) (hh .dataStart) (hh .r2tProc)
    exact ((h1.setD2 (by decide) (hh _) (hh _) (hh _) (hh _)).setD2 (by decide) (hh _) (hh _) (hh _)
      (hh _)).setZero _

theorem rdmaHostSide_within {h : HostRec} (hh : InTime h.ts) {b : Breakdown} (hb : Within b) :
    Within (rdmaHostSide h b) :=
  (((commonHost_within hh hb).setD (by decide) (hh _) (hh _)).setD (by decide) (hh _) (hh _)).setZero _

/-! ## The target side -/

theorem backendDetails_within {T : TgtTs → U64} (hT : InTime T) {b : Breakdown} (hb : Within b) :
    Within (backendDetails T b) := by
  unfold backendDetails
  split_ifs
  · exact hb
  · exact ((hb.setD (by decide) (hT _) (hT _)).setD (by decide) (hT _) (hT _)).setD (by decide) (hT _)
      (hT _)

theorem splitRemote_within {b : Breakdown} (hb : Within b) {residence : S64}
    (hr : AtMost (2 * clockEnd) residence) : Within (splitRemote residence b) := by
  have hn : Within (b.set .net (b.comp .remote - residence)) := by
    refine hb.set (((hb .remote).sub hr).mono ?_)
    rw [← Nat.add_mul]
    exact Nat.mul_le_mul_right _ (by decide)
  intro c
  by_cases hc : c = .remote
  · subst hc
    simpa [splitRemote] using AtMost.zero _
  · simpa [splitRemote, Function.update_of_ne hc] using hn c

theorem writeDataPhase_within {t : TgtRec} (ht : InTime t.ts) {b : Breakdown} (hb : Within b) :
    Within (writeDataPhase t b).2 := by
  have hp : Within (dataPhase (t.ts .dataProc) (t.ts .dataDone) (t.ts .exec) t.h2cBusyNs .tgtData
      .tgtWait b).2 := dataPhase_within _ _ _ _ (ht .dataDone) hb rfl rfl
  simp only [writeDataPhase]
  split_ifs <;> exact hp

/-- What is left of a write's submission after its data is one difference. -/
theorem writeDataPhase_sub {t : TgtRec} (ht : InTime t.ts) (b : Breakdown) :
    AtMost (1 * clockEnd) (writeDataPhase t b).1 := by
  rcases writeDataPhase_cases t b with hp | ⟨busy, hp⟩ <;> rw [hp] <;> exact small_d (ht _) (ht _)

theorem targetSide_within {t : TgtRec} (ht : InTime t.ts) {b : Breakdown} (hb : Within b) :
    Within (targetSide t b) := by
  have h0 : Within (b.set .tgtBe (d (t.ts .complete) (t.ts .exec))) := hb.setD (by decide) (ht _) (ht _)
  have h1 : AtMost (2 * clockEnd) (d (t.ts .c2hSent) (t.ts .cmdArr)) :=
    (small_d (ht _) (ht _)).mono (Nat.mul_le_mul_right _ (by decide))
  have h2 : AtMost (2 * clockEnd) (d (t.ts .rspSent) (t.ts .cmdArr)) :=
    (small_d (ht _) (ht _)).mono (Nat.mul_le_mul_right _ (by decide))
  simp only [targetSide, set_ioClass]
  apply backendDetails_within ht
  cases b.ioClass with
  | read =>
    exact splitRemote_within (((h0.setD (by decide) (ht _) (ht _)).setD (by decide) (ht _) (ht _)).setD
      (by decide) (ht _) (ht _)) h1
  | writeInline =>
    exact splitRemote_within (((h0.setD (by decide) (ht _) (ht _)).setD (by decide) (ht _) (ht _)).setD
      (by decide) (ht _) (ht _)) h2
  | writeR2t =>
    have h3 := h0.setD2 (c := .tgtRx) (by decide) (ht .cmdProc) (ht .cmdArr) (ht .dataProc) (ht .dataArr)
    have h4 := writeDataPhase_within ht h3
    refine splitRemote_within (Within.setD (h4.set ?_) (by decide) (ht _) (ht _))
      (small_d_add (ht _) (ht _) (ht _) (ht _))
    refine ((small_d (ht _) (ht _)).add (writeDataPhase_sub ht _)).mono ?_
    rw [← Nat.add_mul]
    exact Nat.mul_le_mul_right _ (by decide)

theorem rdmaSplit_within {t : TgtRec} {T : TgtTs → U64} (hT : InTime T) {b : Breakdown}
    (hb : Within b) : Within (rdmaSplit t T b) := by
  have h1 : Within (b.set .tgtRx (d (T .cmdProc) (T .cmdArr))) := hb.setD (by decide) (hT _) (hT _)
  have h2 : ∀ f, Within (rdmaSubmission f T (b.set .tgtRx (d (T .cmdProc) (T .cmdArr)))) := by
    intro f
    cases f with
    | false => exact h1.setD (by decide) (hT _) (hT _)
    | true =>
      have h3 := h1.setD2 (c := .tgtSub) (by decide) (hT .r2tSent) (hT .cmdProc) (hT .exec) (hT .dataProc)
      exact Within.setD (Within.congr h3 rfl) (by decide) (hT _) (hT _)
  have h3 : Within (rdmaReadTransfer t T (rdmaSubmission (t.hdr.has ntpFRdmaRead) T
      (b.set .tgtRx (d (T .cmdProc) (T .cmdArr))))) := by
    unfold rdmaReadTransfer
    split_ifs
    · exact (h2 _).setD (by decide) (hT _) (hT _)
    · exact h2 _
  have hf : AtMost (1 * clockEnd)
      (if t.hdr.has ntpFRdmaRead then d (T .dataProc) (T .r2tSent) else 0) := by
    split_ifs
    · exact small_d (hT _) (hT _)
    · exact .zero _
  simp only [rdmaSplit]
  apply backendDetails_within hT
  refine splitRemote_within ((h3.setD (by decide) (hT _) (hT _)).setD (by decide) (hT _) (hT _)) ?_
  refine ((small_d (hT _) (hT _)).sub hf).mono ?_
  rw [← Nat.add_mul]

theorem InTime.update {T : TgtTs → U64} (hT : InTime T) (i : TgtTs) {x : U64}
    (hx : x.toNat < clockEnd) : InTime (Function.update T i x) := by
  intro j
  rw [Function.update_apply]
  split_ifs
  · exact hx
  · exact hT j

theorem InTime.rdmaOwnPosting {T : TgtTs → U64} (hT : InTime T) : InTime (rdmaOwnPosting T) := by
  unfold Ntprof.rdmaOwnPosting
  split_ifs
  · exact (hT.update _ (by decide)).update _ (by decide)
  · exact hT

theorem rdmaTargetSide_within {t : TgtRec} (ht : InTime t.ts) {b : Breakdown} (hb : Within b) :
    Within (rdmaTargetSide t b).2 := by
  have hT := ht.rdmaOwnPosting
  have hb' : Within { b with postEstimated := true } := hb.congr rfl
  simp only [rdmaTargetSide]
  split_ifs
  · exact hb
  · exact hb
  · exact rdmaSplit_within ((hT.update _ (hT _)).update _ ((hT.update _ (hT _)) _)) hb'
  · exact rdmaSplit_within (hT.update _ (hT _)) hb'
  · exact rdmaSplit_within hT hb

theorem rdmaJoin_within (h : HostRec) {t : Option TgtRec} (ht : ∀ r, t = some r → InTime r.ts)
    {b : Breakdown} (hb : Within b) : Within (rdmaJoin h t b).2 := by
  cases t with
  | none => exact hb
  | some t =>
    have hr := rdmaTargetSide_within (ht t rfl) hb
    simp only [rdmaJoin]
    split_ifs
    · exact hr.congr rfl
    · exact hr
    · exact hb

theorem tcpJoin_within {t : Option TgtRec} (ht : ∀ r, t = some r → InTime r.ts) {b : Breakdown}
    (hb : Within b) : Within (tcpJoin t b).2 := by
  cases t with
  | none => exact hb
  | some t =>
    simp only [tcpJoin]
    split_ifs
    · exact (targetSide_within (ht t rfl) hb).congr rfl
    · exact hb

/-- The components of a breakdown are as small as its timestamps allow. -/
theorem ntpBreakdown_within {h : HostRec} {t : Option TgtRec} (hh : InTime h.ts)
    (ht : ∀ r, t = some r → InTime r.ts) : Within (ntpBreakdown h t).2 := by
  have h0 : Within { ioClass := ntpIoClassOf h } := fun _ => .zero _
  have hs : ∀ b, Within b → Within (stages b) := fun b hb => hb.congr (stages_comp b)
  simp only [ntpBreakdown]
  split_ifs
  · exact h0
  · exact hs _ (rdmaJoin_within h ht (rdmaHostSide_within hh h0))
  · exact h0
  · exact hs _ (tcpJoin_within ht (hostSide_within hh h0))

end Ntprof
