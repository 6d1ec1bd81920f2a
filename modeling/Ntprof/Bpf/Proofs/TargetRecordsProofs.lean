import Ntprof.Bpf.Proofs.TargetProofs
import Ntprof.Proofs.ReceiveProofs

/-!
# What every record of an NVMe/TCP target has in common

A property of records that every write of a hook keeps holds of all records in the table, and so of all
that the ring buffer takes. `KeptBy` lists the writes.
-/

namespace Ntprof.Bpf

/-- The events of a target that neither receives data nor starts to execute. -/
def plainStamps : List TgtTs := [.beIssue, .beDone, .complete, .r2tQueued, .rspQueued, .r2tSent, .c2hSent, .rspSent]

/-- The writes of the NVMe/TCP hooks that run at time `now`, other than those of a copy, keep `P`. -/
structure KeptBy (P : TgtRec → Prop) (now : U64) : Prop where
  flags : ∀ r bits, P r → P (r.orFlags bits)
  cpu : ∀ r cpu, P r → P { r with hdr := { r.hdr with cpu := cpu } }
  stamp : ∀ r, ∀ i ∈ plainStamps, P r → P (r.stamp i now)
  exec : ∀ r len, r.ts .exec = 0 → P r → P { r.stamp .exec now with bytes := len }
  start : ∀ f env a c m n arrival, env.now = now → ArrivedBefore arrival now →
    P (newTgtRec .tcp f env a c m n arrival)
  h2c : ∀ r arrival, r.ts .dataProc = 0 → ArrivedBefore arrival now → P r →
    P (((r.orFlags ntpFR2t).stamp .dataArr arrival).stamp .dataProc now)

/-- Every record in the table and on the ring buffer has the property `P`. -/
structure TgtState.Records (P : TgtRec → Prop) (s : TgtState) : Prop where
  table : ∀ i, P (s.treqs i).record
  events : ∀ r ∈ s.events, P r

section Records

variable {P : TgtRec → Prop} {f : Filter} {s s' : TgtState} {env : HookEnv} {key : U64} {r : TgtRec}

theorem TgtState.Records.quiet (h : s.Records P) (hq : Quiet s s') : s'.Records P := by
  refine ⟨fun i => ?_, ?_⟩
  · rw [hq.treqs]
    exact h.table i
  · rw [hq.events]
    exact h.events

theorem TgtState.Records.mono {Q : TgtRec → Prop} (h : s.Records P) (hPQ : ∀ r, P r → Q r) : s.Records Q :=
  ⟨fun i => hPQ _ (h.table i), fun r hr => hPQ r (h.events r hr)⟩

theorem TgtState.Records.get (h : s.Records P) (hr : s.tgtRec key = some r) : P r := by
  obtain ⟨-, rfl⟩ := TgtState.tgtRec_eq_some.mp hr
  exact h.table _

theorem TgtState.Records.setEntry (h : s.Records P) {e : TgtEntry} (he : P e.record) :
    (s.setEntry key e).Records P := by
  refine ⟨fun i => ?_, h.events⟩
  by_cases hi : i = ntpSlot key
  · subst hi
    simpa [TgtState.setEntry] using he
  · simpa [TgtState.setEntry, hi] using h.table i

theorem TgtState.Records.setRec (h : s.Records P) (hr : P r) : (s.setRec key r).Records P := h.setEntry hr

theorem TgtState.Records.stampRec (h : s.Records P) {i : TgtTs} {t : U64} (hst : ∀ r, P r → P (r.stamp i t)) :
    (s.stampRec key i t).Records P := by
  unfold TgtState.stampRec
  split
  · exact h
  · rename_i r hr
    apply h.setRec
    unfold TgtRec.stampOnce
    split
    · exact hst r (h.get hr)
    · exact h.get hr

theorem tgtEmit_treqs {e : TgtEntry} (he : s.tgtEntry key = some e) : (s.tgtEmit env key).treqs =
    Function.update s.treqs (ntpSlot key) { e with req := 0, record := emittedRec env e.record } := by
  cases hfull : env.rbFull <;>
    simp only [TgtState.tgtEmit, he, hfull, TgtState.setEntry, TgtState.inflightAdd, TgtState.count, emittedRec,
      if_true, Bool.false_eq_true, if_false]

theorem TgtState.Records.tgtEmit (h : s.Records P) (hk : KeptBy P env.now) : (s.tgtEmit env key).Records P := by
  cases he : s.tgtEntry key with
  | none =>
    rw [TgtState.tgtEmit, he]
    exact h
  | some e =>
    obtain ⟨hown, rfl⟩ := TgtState.tgtEntry_eq_some.mp he
    have hr : P (emittedRec env (s.treqs (ntpSlot key)).record) := hk.cpu _ _ (h.table _)
    have hout := (finished_tgtEmit env (TgtState.tgtRec_eq_some.mpr ⟨hown, rfl⟩)).events
    refine ⟨fun i => ?_, fun r hmem => ?_⟩
    · rw [tgtEmit_treqs he]
      by_cases hi : i = ntpSlot key
      · rw [hi, Function.update_self]
        exact hr
      · rw [Function.update_of_ne hi]
        exact h.table i
    · rw [hout] at hmem
      split at hmem
      · exact h.events r hmem
      · rcases List.mem_append.mp hmem with hmem | hmem
        · exact h.events r hmem
        · rw [List.mem_singleton.mp hmem]
          exact hr

theorem TgtState.Records.tgtFinish (h : s.Records P) (hk : KeptBy P env.now) :
    (s.tgtFinish f env key).Records P :=
  (h.quiet (quiet_tgtUncount s f key)).tgtEmit hk

theorem TgtState.Records.flushOpen (h : s.Records P) (hk : KeptBy P env.now) :
    (flushOpen s env key).Records P := by
  unfold Bpf.flushOpen
  split
  · exact h
  · split
    · exact h
    · rename_i r hr
      exact (h.setRec (hk.flags r _ (h.get hr))).tgtEmit hk

theorem TgtState.Records.storeTgtRec (h : s.Records P) (hr : P r) : (storeTgtRec s key r).Records P := by
  have hs := stored_storeTgtRec s key r
  refine ⟨fun i => ?_, ?_⟩
  · rw [hs.treqs]
    by_cases hi : i = ntpSlot key
    · subst hi
      simpa using hr
    · simpa [hi] using h.table i
  · rw [hs.events]
    exact h.events

/-- Over TCP, the arrival of a command or of data is no later than now. -/
theorem arrivedBefore_rxArrival (f : Filter) (s : TgtState) (env : HookEnv) (sk : U64) (tstamp : S64) :
    ArrivedBefore (rxArrival f s env sk tstamp env.now) env.now := by
  have hnow : ArrivedBefore env.now env.now := ⟨BitVec.le_refl _, fun h => h⟩
  unfold rxArrival
  split
  · exact hnow
  · split
    · exact hnow
    · exact arrivedBefore_skb f tstamp env.now

theorem TgtState.Records.reqInit (h : s.Records P) (hk : KeptBy P env.now) (a : ReqInitArgs) :
    (ntpTReqInit .tcp f s env a).Records P := by
  unfold ntpTReqInit
  split
  · have hq := (quiet_rememberOurs .tcp f s env a).trans
      ((quiet_countCommand f _ a).trans quiet_count_tgtCmds)
    have hflush : (Bpf.flushOpen _ env a.req).Records P := (h.quiet hq).flushOpen hk
    unfold reqInitOurs
    dsimp only
    split
    · exact hflush
    · split
      · exact hflush
      · split
        · exact hflush
        · split
          · exact hflush
          · exact (hflush.quiet quiet_rememberSampled).storeTgtRec
              (hk.start _ _ _ _ _ _ _ rfl (arrivedBefore_rxArrival f _ env a.sk a.tstamp))
  · exact h

theorem TgtState.Records.onExec (h : s.Records P) (hk : KeptBy P env.now) (req : U64) (len : U32) :
    (onExec s env req len).Records P := by
  unfold Bpf.onExec
  split
  · exact h
  · split
    · exact h
    · rename_i r hr
      split
      · exact h
      · rename_i hexec
        exact h.setRec (hk.exec r len (not_not.mp hexec) (h.get hr))

theorem TgtState.Records.onH2c (h : s.Records P) (hk : KeptBy P env.now) (req : KAddr)
    (sk : U64) (tstamp : S64) : (onH2c f s env req sk tstamp).Records P := by
  unfold Bpf.onH2c
  split
  · exact h
  · split
    · exact h
    · rename_i r hr
      split
      · exact h.setRec (hk.flags r _ (h.get hr))
      · split
        · exact h
        · rename_i hproc
          exact h.setRec (hk.h2c r _ (not_not.mp hproc) (arrivedBefore_rxArrival f s env sk tstamp) (h.get hr))

/-- The copy that ended is added to the record of its command, if that awaits data. -/
theorem TgtState.Records.copyDone (h : s.Records P) {c : TcpRx} {a : CopyDoneArgs}
    (hcopy : ∀ (req : KAddr) r, a.cmd = some req → s.tgtRec req = some r → awaitsData r = true →
      P (addCopy f r c a.tstamp env.now)) :
    (copyDone f s env c a).Records P := by
  unfold Bpf.copyDone
  split
  · exact h
  · split
    · exact h
    · rename_i req ha
      split
      · exact h
      · rename_i r hr
        split
        · exact h
        · rename_i hawaits
          split
          · exact h
          · exact h.setRec (hcopy req r ha hr (by simpa using hawaits))

theorem TgtState.Records.onCopyDone (h : s.Records P) {a : CopyDoneArgs}
    (hcopy : ∀ c, ntpCtxGet s.tcpRx env = some c → c.enter ≠ 0 → ∀ (req : KAddr) r, a.cmd = some req →
      s.tgtRec req = some r → awaitsData r = true → P (addCopy f r c a.tstamp env.now)) :
    (onCopyDone f s env a).Records P := by
  unfold Bpf.onCopyDone
  split
  · exact h
  · split
    · exact h
    · rename_i c hc
      have hput : ({ s with tcpRx := ctxPut s.tcpRx env { c with enter := 0 } } : TgtState).Records P :=
        ⟨h.table, h.events⟩
      dsimp only
      split
      · exact hput
      · rename_i hnot
        exact hput.copyDone (hcopy c hc fun h0 => hnot (Or.inl h0))

theorem TgtState.Records.tcpOnQueueResp (h : s.Records P) (hk : KeptBy P env.now) (a : TcpRespArgs) :
    (tcpOnQueueResp f s env a).Records P := by
  have hq : (if f.trackQueues then s.countRespQueued a.req else s).Records P := by
    split
    · exact h.quiet (quiet_countRespQueued s a.req)
    · exact h
  unfold Bpf.tcpOnQueueResp
  split
  · exact h
  · split
    · exact h.stampRec fun r => hk.stamp r .r2tQueued (by decide)
    · exact hq.stampRec fun r => hk.stamp r .rspQueued (by decide)

theorem TgtState.Records.sendPdu (h : s.Records P) (hk : KeptBy P env.now) (req : U64) (a : SendmsgArgs) :
    (sendPdu f s env req a).Records P := by
  have hc2h : (s.stampRec req .c2hSent env.now).Records P := h.stampRec fun r => hk.stamp r .c2hSent (by decide)
  unfold Bpf.sendPdu
  split
  · exact h.stampRec fun r => hk.stamp r .r2tSent (by decide)
  · dsimp only
    split
    · refine TgtState.Records.tgtFinish ?_ hk
      split
      · exact hc2h
      · rename_i r hr
        exact hc2h.setRec (hk.flags r _ (hc2h.get hr))
    · exact hc2h
  · refine TgtState.Records.tgtFinish ?_ hk
    split
    · exact h
    · rename_i r hr
      exact h.setRec (hk.stamp r .rspSent (by decide) (h.get hr))
  · exact h

theorem TgtState.Records.onSendmsg (h : s.Records P) (hk : KeptBy P env.now) (a : SendmsgArgs) :
    (onSendmsg f s env a).Records P := by
  unfold Bpf.onSendmsg
  split
  · exact h
  · split
    · exact h
    · split
      · exact h
      · split
        · exact h
        · split
          · exact h
          · exact h.sendPdu hk _ a

/-- Every event but the end of a copy. -/
theorem TgtState.Records.step (h : s.Records P) {e : TgtEvent} (hk : ∀ env, e.env = some env → KeptBy P env.now)
    (hcopy : ∀ env a, e ≠ .tcp env (.copyDone a)) :
    (tgtStep .tcp f s e).Records P := by
  cases e with
  | arm on => exact ⟨h.table, h.events⟩
  | reqInit seen env a =>
    show (if seen then ntpTReqInit .tcp f s env a else s).Records P
    split
    · exact h.reqInit (hk env rfl) a
    · exact h
  | exec env req len => exact h.onExec (hk env rfl) req len
  | beIssue env priv =>
    show (ntpTBeIssue s env priv).Records P
    unfold ntpTBeIssue
    split
    · exact h
    · rename_i r hr
      have hs : (s.stampRec priv .beIssue env.now).Records P :=
        h.stampRec fun r => (hk env rfl).stamp r .beIssue (by decide)
      rwa [TgtState.stampRec, recOfRq_eq_some hr] at hs
  | beDone env priv =>
    show (ntpTBeDone s env priv).Records P
    unfold ntpTBeDone
    split
    · exact h
    · rename_i r hr
      exact h.setRec ((hk env rfl).stamp r .beDone (by decide) (h.get (recOfRq_eq_some hr)))
  | complete env req =>
    show (ntpTComplete s env req).Records P
    unfold ntpTComplete
    split
    · exact h
    · exact h.stampRec fun r => (hk env rfl).stamp r .complete (by decide)
  | tcp env e =>
    cases e with
    | copy skb sk offset => exact ⟨h.table, h.events⟩
    | copyDone a => exact absurd rfl (hcopy env a)
    | queueResp a => exact h.tcpOnQueueResp (hk env rfl) a
    | h2c req sk tstamp => exact h.onH2c (hk env rfl) req sk tstamp
    | sendmsg a => exact h.onSendmsg (hk env rfl) a
  | rdma env e => exact h

end Records

end Ntprof.Bpf
