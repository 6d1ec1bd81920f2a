import Ntprof.Proofs.OutcomeProofs
import Ntprof.Bpf.Clock

/-!
# Arrival and processing

An arrival is a receive timestamp of an skb, turned into the monotonic clock by an offset; the
processing that follows is stamped by a hook. Whatever the two values are, the arrival a record gets is
no later than its processing.
-/

namespace Ntprof

open Bpf (Filter clockLimit ntpPlausible ntpSkbArrival)

/-- An arrival that is no later than its processing, and known if that is. -/
structure ArrivedBefore (arr proc : U64) : Prop where
  le : arr ≤ proc
  known : proc ≠ 0 → arr ≠ 0

/-- What the host received arrived before it was processed. -/
structure HostRec.InOrder (r : HostRec) : Prop where
  c2h : ArrivedBefore (r.ts .c2hArr) (r.ts .c2hProc)
  r2t : ArrivedBefore (r.ts .r2tArr) (r.ts .r2tProc)
  rsp : ArrivedBefore (r.ts .rspArr) (r.ts .rspProc)

/-- What the target received arrived before it was processed. -/
structure TgtRec.InOrder (r : TgtRec) : Prop where
  cmd : ArrivedBefore (r.ts .cmdArr) (r.ts .cmdProc)
  data : ArrivedBefore (r.ts .dataArr) (r.ts .dataProc)
  dataLast : ArrivedBefore (r.ts .dataLastArr) (r.ts .dataDone)

/-! ## Skbs -/

theorem ntpSkbArrival_le (f : Filter) (t : S64) (now : U64) : ntpSkbArrival f t now ≤ now := by
  have hp : ∀ ts, ntpPlausible ts now = true → ts ≤ now := by
    intro ts h
    simp only [ntpPlausible, Bool.and_eq_true, decide_eq_true_iff] at h
    exact h.1.2
  unfold ntpSkbArrival
  dsimp only
  split_ifs with h1 h2 h3
  · exact BitVec.le_refl now
  · exact hp _ h2
  · exact hp _ h3
  · exact BitVec.le_refl now

theorem ntpSkbArrival_ne_zero (f : Filter) (t : S64) {now : U64} (h0 : now ≠ 0) : ntpSkbArrival f t now ≠ 0 := by
  have hp : ∀ ts, ntpPlausible ts now = true → ts ≠ 0 := by
    intro ts h
    simp only [ntpPlausible, Bool.and_eq_true, decide_eq_true_iff] at h
    exact h.1.1
  unfold ntpSkbArrival
  dsimp only
  split_ifs with h1 h2 h3
  · exact h0
  · exact hp _ h2
  · exact hp _ h3
  · exact h0

theorem arrivedBefore_skb (f : Filter) (t : S64) (now : U64) : ArrivedBefore (ntpSkbArrival f t now) now :=
  ⟨ntpSkbArrival_le f t now, fun h0 => ntpSkbArrival_ne_zero f t h0⟩

/-! ## The receive paths in the breakdown -/

theorem d_nonneg {x y : U64} (hyx : y ≤ x) (hx : x < clockLimit) :
    0 ≤ (d x y).toInt ∧ (d x y).toInt < 2 ^ 62 := by
  have h1 : y.toNat ≤ x.toNat := BitVec.le_def.mp hyx
  have h2 : x.toNat < 2 ^ 62 := BitVec.lt_def.mp hx
  have h3 : (d x y).toNat = x.toNat - y.toNat := BitVec.toNat_sub_of_le hyx
  rw [BitVec.toInt_eq_toNat_of_lt (by omega), h3]
  omega

theorem d_add_nonneg {x y u v : U64} (hyx : y ≤ x) (hx : x < clockLimit) (hvu : v ≤ u) (hu : u < clockLimit) :
    0 ≤ (d x y + d u v).toInt := by
  have h1 := d_nonneg hyx hx
  have h2 := d_nonneg hvu hu
  rw [BitVec.toInt_add, Int.bmod_eq_of_le (by omega) (by omega)]
  omega

/-- A component of the host alone. -/
def Comp.hostOnly (c : Comp) : Bool := !c.ofTarget && c != .remote

theorem hostOnly_ne {c x : Comp} (hc : c.hostOnly = true) (hx : x.hostOnly = false) : c ≠ x := by
  rintro rfl
  rw [hc] at hx
  cases hx

theorem backendDetails_comp_host (T : TgtTs → U64) (b : Breakdown) {c : Comp} (hc : c.hostOnly = true) :
    (backendDetails T b).comp c = b.comp c := by
  unfold backendDetails
  split_ifs
  · rfl
  · simp [hostOnly_ne hc (x := .tgtBeSub) rfl, hostOnly_ne hc (x := .tgtDev) rfl,
      hostOnly_ne hc (x := .tgtBeCmpl) rfl]

theorem splitRemote_comp_host (residence : S64) (b : Breakdown) {c : Comp} (hc : c.hostOnly = true) :
    (splitRemote residence b).comp c = b.comp c :=
  splitRemote_comp residence b (hostOnly_ne hc rfl) (hostOnly_ne hc rfl)

theorem set_comp_host (b : Breakdown) {c x : Comp} (hc : c.hostOnly = true) (hx : x.hostOnly = false)
    (v : S64) : (b.set x v).comp c = b.comp c := by
  simp [hostOnly_ne hc hx]

theorem targetSide_comp_host (t : TgtRec) (b : Breakdown) {c : Comp} (hc : c.hostOnly = true) :
    (targetSide t b).comp c = b.comp c := by
  simp only [targetSide, set_ioClass]
  rw [backendDetails_comp_host _ _ hc, splitRemote_comp_host _ _ hc]
  cases b.ioClass with
  | read | writeInline =>
    simp only
    repeat rw [set_comp_host _ hc rfl]
  | writeR2t =>
    simp only
    rcases writeDataPhase_cases t ((b.set .tgtBe (d (t.ts .complete) (t.ts .exec))).set .tgtRx
      (d (t.ts .cmdProc) (t.ts .cmdArr) + d (t.ts .dataProc) (t.ts .dataArr))) with hp | ⟨busy, hp⟩
    all_goals
      rw [hp]
      repeat rw [set_comp_host _ hc rfl]

theorem rdmaSplit_comp_host (t : TgtRec) (T : TgtTs → U64) (b : Breakdown) {c : Comp} (hc : c.hostOnly = true) :
    (rdmaSplit t T b).comp c = b.comp c := by
  have hsub : ∀ fetch b, (rdmaSubmission fetch T b).comp c = b.comp c := by
    intro fetch b
    unfold rdmaSubmission
    split_ifs
    · simp only
      rw [set_comp_host _ hc rfl]
      exact set_comp_host _ hc rfl _
    · exact set_comp_host _ hc rfl _
  have htransfer : ∀ b, (rdmaReadTransfer t T b).comp c = b.comp c := by
    intro b
    unfold rdmaReadTransfer
    split_ifs
    · exact set_comp_host _ hc rfl _
    · rfl
  simp only [rdmaSplit]
  rw [backendDetails_comp_host _ _ hc, splitRemote_comp_host _ _ hc, set_comp_host _ hc rfl,
    set_comp_host _ hc rfl, htransfer, hsub, set_comp_host _ hc rfl]

theorem rdmaJoin_comp_host (h : HostRec) (t : Option TgtRec) (b : Breakdown) {c : Comp}
    (hc : c.hostOnly = true) : (rdmaJoin h t b).2.comp c = b.comp c := by
  cases t with
  | none => rfl
  | some t =>
    have hside : (rdmaTargetSide t b).2.comp c = b.comp c := by
      rcases rdmaTargetSide_cases t b with hp | ⟨T, hp | hp⟩ <;> rw [hp]
      · exact rdmaSplit_comp_host t T b hc
      · exact rdmaSplit_comp_host t T _ hc
    simp only [rdmaJoin]
    split_ifs
    · exact hside
    · exact hside
    · rfl

theorem tcpJoin_comp_host (t : Option TgtRec) (b : Breakdown) {c : Comp} (hc : c.hostOnly = true) :
    (tcpJoin t b).2.comp c = b.comp c := by
  cases t with
  | none => rfl
  | some t =>
    simp only [tcpJoin]
    split_ifs
    · exact targetSide_comp_host t b hc
    · rfl

/-- What the host received was also processed by time `t`. -/
structure HostRec.InOrderBy (t : U64) (r : HostRec) : Prop extends r.InOrder where
  c2hProc : r.ts .c2hProc ≤ t
  r2tProc : r.ts .r2tProc ≤ t
  rspProc : r.ts .rspProc ≤ t

/-- What the target received was also processed by time `t`. -/
structure TgtRec.InOrderBy (t : U64) (r : TgtRec) : Prop extends r.InOrder where
  cmdProc : r.ts .cmdProc ≤ t
  dataProc : r.ts .dataProc ≤ t

section Nonneg

variable {now : U64} {h : HostRec} {t : TgtRec}

theorem hostSide_hostRx (hh : h.InOrderBy now) (hnow : now < clockLimit) (b : Breakdown) :
    0 ≤ ((hostSide h b).comp .hostRx).toInt := by
  have hr2t : h.ts .r2tProc < clockLimit := Std.lt_of_le_of_lt hh.r2tProc hnow
  have hrsp : h.ts .rspProc < clockLimit := Std.lt_of_le_of_lt hh.rspProc hnow
  simp only [hostSide, commonHost_ioClass]
  cases b.ioClass with
  | read =>
    simp only
    rcases readDataPhase_cases h (((commonHost h b).set .remote (d (h.ts .c2hArr) (h.ts .cmdSent))).set .hostRx
      (d (h.ts .c2hProc) (h.ts .c2hArr))) with hp | ⟨busy, hp⟩
    all_goals
      rw [hp]
      simpa using (d_nonneg hh.c2h.le (Std.lt_of_le_of_lt hh.c2hProc hnow)).1
  | writeInline => simpa using (d_nonneg hh.rsp.le hrsp).1
  | writeR2t => simpa using d_add_nonneg hh.r2t.le hr2t hh.rsp.le hrsp

/-- The host's receive path never takes negative time. -/
theorem hostRx_nonneg (hh : h.InOrderBy now) (hnow : now < clockLimit) (t : Option TgtRec) :
    0 ≤ ((ntpBreakdown h t).2.comp .hostRx).toInt := by
  simp only [ntpBreakdown]
  split_ifs
  · simp
  · simp only
    rw [stages_comp, rdmaJoin_comp_host h t _ rfl]
    simpa [rdmaHostSide] using (d_nonneg hh.rsp.le (Std.lt_of_le_of_lt hh.rspProc hnow)).1
  · simp
  · simp only
    rw [stages_comp, tcpJoin_comp_host t _ rfl]
    exact hostSide_hostRx hh hnow _

theorem commonHost_tgtRx (h : HostRec) (b : Breakdown) : (commonHost h b).comp .tgtRx = b.comp .tgtRx := by
  simp only [commonHost]
  split_ifs <;> simp

theorem hostSide_tgtRx (h : HostRec) (b : Breakdown) : (hostSide h b).comp .tgtRx = b.comp .tgtRx := by
  simp only [hostSide, commonHost_ioClass]
  cases b.ioClass with
  | read =>
    simp only
    rcases readDataPhase_cases h (((commonHost h b).set .remote (d (h.ts .c2hArr) (h.ts .cmdSent))).set .hostRx
      (d (h.ts .c2hProc) (h.ts .c2hArr))) with hp | ⟨busy, hp⟩
    all_goals
      rw [hp]
      simp [commonHost_tgtRx]
  | writeInline => simp [commonHost_tgtRx]
  | writeR2t => simp [Breakdown.add, commonHost_tgtRx]

theorem backendDetails_tgtRx (T : TgtTs → U64) (b : Breakdown) :
    (backendDetails T b).comp .tgtRx = b.comp .tgtRx := by
  unfold backendDetails
  split_ifs <;> simp

theorem targetSide_tgtRx (ht : t.InOrderBy now) (hnow : now < clockLimit) (b : Breakdown) :
    0 ≤ ((targetSide t b).comp .tgtRx).toInt := by
  have hcmd : t.ts .cmdProc < clockLimit := Std.lt_of_le_of_lt ht.cmdProc hnow
  have hdata : t.ts .dataProc < clockLimit := Std.lt_of_le_of_lt ht.dataProc hnow
  simp only [targetSide, set_ioClass]
  rw [backendDetails_tgtRx, splitRemote_comp _ _ (by decide) (by decide)]
  cases b.ioClass with
  | read | writeInline => simpa using (d_nonneg ht.cmd.le hcmd).1
  | writeR2t =>
    simp only
    rcases writeDataPhase_cases t ((b.set .tgtBe (d (t.ts .complete) (t.ts .exec))).set .tgtRx
      (d (t.ts .cmdProc) (t.ts .cmdArr) + d (t.ts .dataProc) (t.ts .dataArr))) with hp | ⟨busy, hp⟩
    all_goals
      rw [hp]
      simpa using d_add_nonneg ht.cmd.le hcmd ht.data.le hdata

theorem rdmaSplit_tgtRx (t : TgtRec) (T : TgtTs → U64) (b : Breakdown) :
    (rdmaSplit t T b).comp .tgtRx = d (T .cmdProc) (T .cmdArr) := by
  have hsub : ∀ fetch b, (rdmaSubmission fetch T b).comp .tgtRx = b.comp .tgtRx := by
    intro fetch b
    unfold rdmaSubmission
    split_ifs <;> simp
  have htransfer : ∀ b, (rdmaReadTransfer t T b).comp .tgtRx = b.comp .tgtRx := by
    intro b
    unfold rdmaReadTransfer
    split_ifs <;> simp
  simp only [rdmaSplit]
  rw [backendDetails_tgtRx, splitRemote_comp _ _ (by decide) (by decide)]
  simp [htransfer, hsub]

theorem rdmaOwnPosting_cmd (T : TgtTs → U64) :
    rdmaOwnPosting T .cmdProc = T .cmdProc ∧ rdmaOwnPosting T .cmdArr = T .cmdArr := by
  unfold rdmaOwnPosting
  split_ifs
  · exact ⟨rfl, rfl⟩
  · exact ⟨rfl, rfl⟩

theorem rdmaTargetSide_tgtRx (t : TgtRec) (b : Breakdown) :
    (rdmaTargetSide t b).2.comp .tgtRx = b.comp .tgtRx ∨
      (rdmaTargetSide t b).2.comp .tgtRx = d (t.ts .cmdProc) (t.ts .cmdArr) := by
  obtain ⟨h1, h2⟩ := rdmaOwnPosting_cmd t.ts
  simp only [rdmaTargetSide]
  split_ifs
  · exact Or.inl rfl
  · exact Or.inl rfl
  all_goals
    right
    rw [rdmaSplit_tgtRx]
    simp [h1, h2]

/-- The target's receive path never takes negative time. -/
theorem tgtRx_nonneg (ht : t.InOrderBy now) (hnow : now < clockLimit) (h : HostRec) :
    0 ≤ ((ntpBreakdown h (some t)).2.comp .tgtRx).toInt := by
  have hcmd := (d_nonneg ht.cmd.le (Std.lt_of_le_of_lt ht.cmdProc hnow)).1
  simp only [ntpBreakdown]
  split_ifs
  · simp
  · have hhost : 0 ≤ ((rdmaHostSide h { ioClass := ntpIoClassOf h }).comp .tgtRx).toInt := by
      simp [rdmaHostSide, commonHost_tgtRx]
    have hside : 0 ≤ ((rdmaTargetSide t (rdmaHostSide h { ioClass := ntpIoClassOf h })).2.comp .tgtRx).toInt := by
      rcases rdmaTargetSide_tgtRx t (rdmaHostSide h { ioClass := ntpIoClassOf h }) with hs | hs <;> rw [hs]
      · exact hhost
      · exact hcmd
    simp only
    rw [stages_comp]
    simp only [rdmaJoin]
    split_ifs
    · exact hside
    · exact hside
    · exact hhost
  · simp
  · have hhost : 0 ≤ ((hostSide h { ioClass := ntpIoClassOf h }).comp .tgtRx).toInt := by
      rw [hostSide_tgtRx]
      simp
    simp only
    rw [stages_comp]
    simp only [tcpJoin]
    split_ifs
    · exact targetSide_tgtRx ht hnow _
    · exact hhost

end Nonneg

end Ntprof
