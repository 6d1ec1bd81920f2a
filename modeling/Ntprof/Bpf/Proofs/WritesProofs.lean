import Ntprof.Bpf.Proofs.HostProofs
import Mathlib.Order.Defs.Unbundled

/-!
# Which fields of its records a host hook writes

A hook that neither starts nor ends a record rewrites records where they are: `W` relates a record
before to the same record after, `C` the receive contexts. Both are preorders, so hooks can be put
together from their parts.
-/

namespace Ntprof.Bpf

/-- Records change as `W` allows, receive contexts as `C` does; slots, index and ring buffer stay. -/
structure HostWrites (W : HostRec → HostRec → Prop) (C : (Nat → HostRx) → (Nat → HostRx) → Prop)
    (s s' : HostState) : Prop where
  rq : ∀ i, (s'.reqs i).rq = (s.reqs i).rq
  queue : ∀ i, (s'.reqs i).queue = (s.reqs i).queue
  record : ∀ i, W (s.reqs i).record (s'.reqs i).record
  cidIdx : s'.cidIdx = s.cidIdx
  events : s'.events = s.events
  rxCtx : C s.rxCtx s'.rxCtx

section Writes

variable {W : HostRec → HostRec → Prop} [IsPreorder HostRec W]
variable {C : (Nat → HostRx) → (Nat → HostRx) → Prop} [IsPreorder (Nat → HostRx) C]
variable {k : Layout} {f : Filter} {s s₁ s₂ s' : HostState} {env : HookEnv} {rq : U64} {r r' : HostRec}

theorem HostWrites.refl (s : HostState) : HostWrites W C s s :=
  ⟨fun _ => rfl, fun _ => rfl, fun _ => refl_of W _, rfl, rfl, refl_of C _⟩

theorem HostWrites.trans (h : HostWrites W C s s₁) (h' : HostWrites W C s₁ s₂) : HostWrites W C s s₂ where
  rq i := (h'.rq i).trans (h.rq i)
  queue i := (h'.queue i).trans (h.queue i)
  record i := trans_of W (h.record i) (h'.record i)
  cidIdx := h'.cidIdx.trans h.cidIdx
  events := h'.events.trans h.events
  rxCtx := trans_of C h.rxCtx h'.rxCtx

/-- No record, index entry or context changed. -/
theorem HostWrites.of_eq (hr : s'.reqs = s.reqs) (hi : s'.cidIdx = s.cidIdx) (he : s'.events = s.events)
    (hc : s'.rxCtx = s.rxCtx) : HostWrites W C s s' := by
  refine ⟨fun i => by rw [hr], fun i => by rw [hr], fun i => ?_, hi, he, ?_⟩
  · rw [hr]
    exact refl_of W _
  · rw [hc]
    exact refl_of C _

omit [IsPreorder (Nat → HostRx) C] in
/-- A context changed and nothing else. -/
theorem HostWrites.of_ctx {ctx : Nat → HostRx} (hc : C s.rxCtx ctx) :
    HostWrites W C s { s with rxCtx := ctx } :=
  ⟨fun _ => rfl, fun _ => rfl, fun _ => refl_of W _, rfl, rfl, hc⟩

theorem writes_setRec (hw : W (s.reqs (ntpSlot rq)).record r') : HostWrites W C s (s.setRec rq r') := by
  refine ⟨fun i => ?_, fun i => ?_, fun i => ?_, rfl, rfl, refl_of C _⟩
  · by_cases hi : i = ntpSlot rq
    · subst hi
      simp [HostState.setRec, HostState.setEntry]
    · simp [HostState.setRec, HostState.setEntry, hi]
  · by_cases hi : i = ntpSlot rq
    · subst hi
      simp [HostState.setRec, HostState.setEntry]
    · simp [HostState.setRec, HostState.setEntry, hi]
  · by_cases hi : i = ntpSlot rq
    · subst hi
      simpa [HostState.setRec, HostState.setEntry] using hw
    · simpa [HostState.setRec, HostState.setEntry, hi] using refl_of W _

theorem writes_of_hostRec (hr : s.hostRec rq = some r) (hw : W r r') : HostWrites W C s (s.setRec rq r') :=
  writes_setRec (by rw [(HostState.hostRec_eq_some.mp hr).2]; exact hw)

theorem writes_stampRec {i : HostTs} (hw : ∀ r t, W r (r.stamp i t)) (t : U64) :
    HostWrites W C s (s.stampRec rq i t) := by
  unfold HostState.stampRec
  split
  · exact .refl s
  · rename_i r hr
    refine writes_of_hostRec hr ?_
    unfold HostRec.stampOnce
    split
    · exact hw r t
    · exact refl_of W r

theorem writes_uncount (s : HostState) (rq : U64) (b : Bool) (bits : U32) (forget : Bool) :
    HostWrites W C s (if b then s.uncount rq bits forget else s) := by
  split
  · unfold HostState.uncount
    split
    · exact .refl s
    · exact .of_eq rfl rfl rfl rfl
  · exact .refl s

theorem writes_hostQueueRq (rq : KAddr) (driverData : U64) :
    HostWrites W C s (hostQueueRq f s env rq driverData) := by
  have hcount : HostWrites W C s (countRequest f s rq driverData).1 := by
    unfold countRequest
    split
    · dsimp only
      split
      · exact .of_eq rfl rfl rfl rfl
      · split <;> exact .of_eq rfl rfl rfl rfl
    · exact .refl s
  unfold hostQueueRq
  split
  · exact .refl s
  · exact hcount.trans (.of_eq rfl rfl rfl rfl)

/-! ## Sending -/

theorem writes_tcpOnSendDone (h1 : ∀ r t, W r (r.stamp .cmdSent t)) (h2 : ∀ r t, W r (r.stamp .dataSent t))
    (s : HostState) (req : U64) (ret : BitVec 32) (cmdPdu moreToSend : Bool) :
    HostWrites W C s (tcpOnSendDone k f s env req ret cmdPdu moreToSend) := by
  unfold tcpOnSendDone
  split
  · exact .refl s
  · have hu : HostWrites W C s _ :=
      writes_uncount s (rqFromPdu k req) (cmdPdu && f.trackQueues) cntUnsent false
    dsimp only
    split
    · exact hu
    · split
      · exact hu
      · rename_i r hr
        split
        · exact hu.trans (writes_of_hostRec hr (h1 r _))
        · split
          · exact hu.trans (writes_of_hostRec hr (h2 r _))
          · exact hu

theorem writes_onSendH2c (h : ∀ r t, W r (r.stamp .dataStart t)) (s : HostState) (req : U64) :
    HostWrites W C s (onSendH2c k s env req) := by
  unfold onSendH2c
  split
  · exact .refl s
  · split
    · exact .refl s
    · rename_i r hr
      split
      · refine writes_of_hostRec hr ?_
        unfold HostRec.stampOnce
        split
        · exact h r _
        · exact refl_of W r
      · exact .refl s

theorem writes_ntpHNvmeDone (h : ∀ r t, W r (r.stamp .nvmeDone t)) (rq : KAddr) :
    HostWrites W C s (ntpHNvmeDone s env rq) := by
  unfold ntpHNvmeDone
  split
  · exact .refl s
  · exact writes_stampRec h _

/-- A hook on the submission of a request. -/
def HostTcpEvent.sends : HostTcpEvent → Bool
  | .queueRq _ _ | .sendFx _ _ _ _ | .sendKp _ | .sendKr _ _ _ | .sendH2c _ => true
  | .trySend _ _ | .sockSend _ _ | .trySendDone _ _ _ => true
  | .recvSkb _ _ _ | .recvSkbExit | .copy _ _ | .r2t _ | .complete _ _ => false

/-- The hooks on the submission write only when command and data were sent. -/
theorem writes_sends (h1 : ∀ r t, W r (r.stamp .cmdSent t)) (h2 : ∀ r t, W r (r.stamp .dataSent t))
    (h3 : ∀ r t, W r (r.stamp .dataStart t)) {e : HostTcpEvent} (he : e.sends = true) :
    HostWrites W C s (e.run k f s env) := by
  cases e with
  | queueRq rq driverData => exact writes_hostQueueRq rq driverData
  | sendFx req ret cmdPdu moreToSend => exact writes_tcpOnSendDone h1 h2 ..
  | sendKp req => exact .of_eq rfl rfl rfl rfl
  | sendKr ret cmdPdu moreToSend =>
    show HostWrites W C s (sendExit k f s env ret cmdPdu moreToSend)
    unfold sendExit
    split
    · exact .refl s
    · have hc : HostWrites W C s { s with sendCtx := sendLeave s.sendCtx env } := .of_eq rfl rfl rfl rfl
      exact hc.trans (writes_tcpOnSendDone h1 h2 ..)
  | sendH2c req => exact writes_onSendH2c h3 ..
  | trySend queue request =>
    show HostWrites W C s (trySendEnter k f s env queue request)
    unfold trySendEnter
    split
    · exact .refl s
    · have hc : HostWrites W C s { s with
          tsendCtx := ctxPut s.tsendCtx env (tsendStart env queue request) } := .of_eq rfl rfl rfl rfl
      dsimp only
      split
      · exact hc
      · exact hc.trans (writes_onSendH2c h3 ..)
  | sockSend userData request =>
    show HostWrites W C s (onSockSend k f s env userData request)
    unfold onSockSend
    split
    · exact .refl s
    · split
      · exact .refl s
      · rename_i c _
        split
        · exact .refl s
        · split
          · exact .refl s
          · rename_i q
            have hc : HostWrites W C s { s with tsendCtx := ctxPut s.tsendCtx env (c.found q) } :=
              .of_eq rfl rfl rfl rfl
            exact hc.trans (writes_onSendH2c h3 ..)
  | trySendDone ret sent moreToSend =>
    show HostWrites W C s (trySendExit k f s env ret sent moreToSend)
    unfold trySendExit
    split
    · exact .refl s
    · rename_i c _
      have hc : HostWrites W C s { s with tsendCtx := trySendLeave s.tsendCtx env } :=
        .of_eq rfl rfl rfl rfl
      dsimp only
      split
      · exact hc
      · exact hc.trans ((writes_uncount ..).trans (writes_tcpOnSendDone h1 h2 ..))
  | recvSkb | recvSkbExit | copy | r2t | complete => cases he

/-! ## Receiving -/

/-- What a hook in the call of the context `c` may do to a record. -/
structure ReceiveWrites (W : HostRec → HostRec → Prop) (c : HostRx) (now : U64) : Prop where
  done : ∀ r, W r (hostDataDone r c now)
  lastArr : ∀ r, W r (r.stamp .c2hLastArr c.arrival)
  first : ∀ r, W r (firstData r c now)
  r2t : ∀ r, W r (((r.orFlags ntpFR2t).stamp .r2tArr c.arrival).stamp .r2tProc now)
  rsp : ∀ r rq, W r (completeRec r c rq now)
  flags : ∀ r bits, W r (r.orFlags bits)

theorem writes_recvSkbData {c : HostRx} (h : ReceiveWrites W c env.now) :
    HostWrites W C s (recvSkbData s env c) := by
  unfold recvSkbData
  split
  · exact .refl s
  · split
    · exact .refl s
    · rename_i r hr
      exact writes_of_hostRec hr (h.done r)

theorem writes_switchRead {c : HostRx} (h : ReceiveWrites W c env.now) (s : HostState) :
    HostWrites W C s (switchRead s env c) := by
  unfold switchRead
  split
  · split
    · exact .refl s
    · rename_i r hr
      exact writes_of_hostRec hr (h.done r)
  · exact .refl s

theorem writes_copyData {c : HostRx} {e : HostEntry} (he : s.hostEntry rq = some e)
    (h : ReceiveWrites W c env.now)
    (hput : ∀ rq t, C s.rxCtx (ctxPut s.rxCtx env { c with dataRq := rq, busyFrom := t })) :
    HostWrites W C s (copyData s env c rq e) := by
  have hs : HostWrites W C s (s.setRec rq (e.record.stamp .c2hLastArr c.arrival)) := by
    obtain ⟨_, rfl⟩ := HostState.hostEntry_eq_some.mp he
    exact writes_setRec (h.lastArr _)
  unfold copyData
  dsimp only
  split
  · exact hs
  · split
    · exact hs.trans (writes_switchRead h _)
    · rename_i r hr
      have hctx : (switchRead (s.setRec rq (e.record.stamp .c2hLastArr c.arrival)) env c).rxCtx = s.rxCtx :=
        switchRead_rxCtx ..
      refine (hs.trans (writes_switchRead h _)).trans ((writes_of_hostRec hr (h.first r)).trans (.of_ctx ?_))
      show C (switchRead _ env c).rxCtx (ctxPut (switchRead _ env c).rxCtx env _)
      rw [hctx]
      exact hput _ _

theorem writes_hostOnCopy (skb : U64) (pdu : Option U16)
    (h : ∀ c, ntpCtxGet s.rxCtx env = some c → ReceiveWrites W c env.now)
    (hput : ∀ c, ntpCtxGet s.rxCtx env = some c →
      ∀ rq t, C s.rxCtx (ctxPut s.rxCtx env { c with dataRq := rq, busyFrom := t })) :
    HostWrites W C s (hostOnCopy f s env skb pdu) := by
  unfold hostOnCopy
  split
  · exact .refl s
  · split
    · exact .refl s
    · rename_i c hc
      split
      · exact .refl s
      · split
        · exact .refl s
        · split
          · exact .refl s
          · split
            · exact .refl s
            · rename_i e he
              exact writes_copyData he (h c hc) (hput c hc)

theorem writes_onR2t (req : U64) (h : ∀ c, ntpCtxGet s.rxCtx env = some c → ReceiveWrites W c env.now) :
    HostWrites W C s (onR2t k s env req) := by
  unfold onR2t
  split
  · exact .refl s
  · rename_i c hc
    split
    · exact .refl s
    · rename_i r hr
      split
      · exact writes_of_hostRec hr ((h c hc).flags r _)
      · exact writes_of_hostRec hr ((h c hc).r2t r)

theorem uncount_rxCtx (s : HostState) (rq : U64) (b : Bool) (bits : U32) (forget : Bool) :
    (if b then s.uncount rq bits forget else s).rxCtx = s.rxCtx := by
  split
  · unfold HostState.uncount
    split <;> rfl
  · rfl

theorem uncount_hostRec (s : HostState) (rq key : U64) (b : Bool) (bits : U32) (forget : Bool) :
    (if b then s.uncount rq bits forget else s).hostRec key = s.hostRec key := by
  split
  · unfold HostState.uncount
    split <;> rfl
  · rfl

/-- The completion of a request without a record. -/
theorem writes_onComplete_none {rq : KAddr} (hr : s.hostRec rq = none) (c2hData : Bool) :
    HostWrites W C s (onComplete f s env rq c2hData) := by
  have hc : (hostComplete f s env rq).2 = false ∧ HostWrites W C s (hostComplete f s env rq).1 := by
    unfold hostComplete
    split
    · exact ⟨rfl, .refl s⟩
    · split
      · exact ⟨rfl, .refl s⟩
      · simp only [uncount_hostRec, hr]
        exact ⟨trivial, writes_uncount ..⟩
  unfold onComplete
  split
  · rename_i s₁ hs₁
    rw [hs₁] at hc
    exact hc.2
  · rename_i s₁ hs₁
    rw [hs₁] at hc
    cases hc.1

theorem writes_hostComplete (rq : U64)
    (h : ∀ c, ntpCtxGet s.rxCtx env = some c → ReceiveWrites W c env.now)
    (hput : ∀ c, ntpCtxGet s.rxCtx env = some c →
      ∀ rq t, C s.rxCtx (ctxPut s.rxCtx env { c with dataRq := rq, busyFrom := t })) :
    HostWrites W C s (hostComplete f s env rq).1 := by
  unfold hostComplete
  split
  · exact .refl s
  · split
    · exact .refl s
    · rename_i c hc
      have hu : HostWrites W C s _ := writes_uncount s rq f.trackQueues (cntUnsent ||| cntInflight) true
      dsimp only
      split
      · exact hu
      · rename_i r hr
        have hs := hu.trans (writes_of_hostRec hr ((h c hc).rsp r rq))
        dsimp only
        split
        · refine hs.trans (.of_ctx ?_)
          show C ((if f.trackQueues then _ else s).rxCtx) (ctxPut ((if f.trackQueues then _ else s).rxCtx) env _)
          rw [uncount_rxCtx]
          exact hput c hc 0 0
        · exact hs

theorem writes_onComplete (rq : KAddr) (c2hData : Bool)
    (h : ∀ c, ntpCtxGet s.rxCtx env = some c → ReceiveWrites W c env.now)
    (hput : ∀ c, ntpCtxGet s.rxCtx env = some c →
      ∀ rq t, C s.rxCtx (ctxPut s.rxCtx env { c with dataRq := rq, busyFrom := t })) :
    HostWrites W C s (onComplete f s env rq c2hData) := by
  have hc : HostWrites W C s (hostComplete f s env rq).1 := writes_hostComplete rq h hput
  have hfound : (hostComplete f s env rq).2 = true → ∃ c, ntpCtxGet s.rxCtx env = some c := by
    unfold hostComplete
    split
    · intro hf
      cases hf
    · cases hctx : ntpCtxGet s.rxCtx env with
      | none =>
        intro hf
        cases hf
      | some c => exact fun _ => ⟨c, rfl⟩
  unfold onComplete
  split
  · rename_i s₁ hs₁
    rw [hs₁] at hc
    exact hc
  · rename_i s₁ hs₁
    rw [hs₁] at hc hfound
    obtain ⟨c, hctx⟩ := hfound rfl
    split
    · exact hc
    · rename_i r hr
      split
      · exact hc
      · split
        · exact hc.trans (writes_of_hostRec hr ((h c hctx).flags r _))
        · exact hc

/-- What a receiving hook does, from what it may do to a record and to the context of its call. -/
theorem writes_receives (h : ∀ c, ntpCtxGet s.rxCtx env = some c → ReceiveWrites W c env.now)
    (hput : ∀ c, ntpCtxGet s.rxCtx env = some c →
      ∀ rq t, C s.rxCtx (ctxPut s.rxCtx env { c with dataRq := rq, busyFrom := t }))
    (henter : ∀ queue skb tstamp,
      C s.rxCtx (hostRxEnter s.rxCtx env queue skb (ntpSkbArrival f tstamp env.now) env.now))
    (hleave : ∀ counted, C s.rxCtx (recvSkbLeave s.rxCtx env counted)) {e : HostTcpEvent}
    (he : e.sends = false) : HostWrites W C s (e.run k f s env) := by
  cases e with
  | recvSkb skb userData tstamp =>
    show HostWrites W C s (onRecvSkb f s env skb userData tstamp)
    unfold onRecvSkb
    split
    · exact .refl s
    · exact .of_ctx (henter userData skb tstamp)
  | recvSkbExit =>
    show HostWrites W C s (onRecvSkbExit s env)
    unfold onRecvSkbExit
    split
    · exact .refl s
    · rename_i c hc
      have hd : HostWrites W C s (recvSkbData s env c) := writes_recvSkbData (h c hc)
      exact ⟨hd.rq, hd.queue, hd.record, hd.cidIdx, hd.events, hleave _⟩
  | copy skb pdu => exact writes_hostOnCopy skb pdu h hput
  | r2t req => exact writes_onR2t req h
  | complete rq c2hData => exact writes_onComplete rq c2hData h hput
  | _ => cases he

/-! ## Set-ups that start no record -/

theorem writes_takePending (tr : Transport) (s : HostState) (a : SetupArgs) :
    HostWrites W C s (takePending tr f s env a) := by
  unfold takePending
  split
  · exact .refl s
  · exact .of_eq rfl rfl rfl rfl

theorem writes_countThroughput (s : HostState) (opcode : U8) (bytes : U32) :
    HostWrites W C s (countThroughput s opcode bytes) := by
  unfold countThroughput
  split <;> exact .of_eq rfl rfl rfl rfl

theorem writes_ntpHSetupCmd {tr : Transport} {a : SetupArgs} (h : setupStores tr f s env a = false) :
    HostWrites W C s (ntpHSetupCmd tr f s env a) := by
  unfold ntpHSetupCmd
  split
  · exact .refl s
  · rename_i p hp
    have ht : HostWrites W C s (takePending tr f s env a) := writes_takePending tr s a
    dsimp only
    split
    · exact ht
    · rename_i c hc
      split
      · exact ht
      · rename_i hrw
        split
        · exact ht.trans (writes_countThroughput _ c.opcode a.dataLen)
        · rename_i hsam
          simp only [Bool.not_eq_true', Bool.not_eq_false] at hrw hsam
          simp [setupStores, hp, hc, hrw, hsam] at h

end Writes

/-- A set-up that starts a record is one on the state that `takePending` and the throughput counters
left. -/
theorem ntpHSetupCmd_stores {tr : Transport} {f : Filter} {s : HostState} {env : HookEnv} {a : SetupArgs}
    (h : setupStores tr f s env a = true) :
    ∃ c p, a.cmd = some c ∧ setupSource tr f s env a = some p ∧ ntpHSetupCmd tr f s env a =
      storeHostRec (countThroughput (takePending tr f s env a) c.opcode a.dataLen) a.rq
        (if p.queue = 0 then a.driverData else p.queue) (newHostRec tr f env a c p) := by
  simp only [setupStores, Bool.and_eq_true, Option.isSome_iff_exists, Option.any_eq_true] at h
  obtain ⟨⟨p, hp⟩, c, hc, hrw, hsam⟩ := h
  refine ⟨c, p, hc, hp, ?_⟩
  simp only [ntpHSetupCmd, hp, hc, hrw, hsam, Bool.not_true, Bool.false_eq_true, if_false]

/-! ## Records that start and end -/

section Store

variable (s : HostState) (rq queue : U64) (r : HostRec)

theorem storeHostRec_cidIdx : (storeHostRec s rq queue r).cidIdx =
    Function.update s.cidIdx (cidSlotOf queue r.id.cid) { queue := queue, rq := rq, cid := r.id.cid } := by
  unfold storeHostRec
  dsimp only
  split <;> rfl

theorem storeHostRec_reqs : (storeHostRec s rq queue r).reqs =
    Function.update s.reqs (ntpSlot rq) { rq := rq, queue := queue, record := r } := by
  unfold storeHostRec
  dsimp only
  split <;> rfl

theorem storeHostRec_rxCtx : (storeHostRec s rq queue r).rxCtx = s.rxCtx := by
  unfold storeHostRec
  dsimp only
  split <;> rfl

end Store

theorem ntpHBlkDone_some {s : HostState} (tr : Transport) (env : HookEnv) {rq : U64} {e : HostEntry} (h0 : s.inflight ≠ 0)
    (he : s.hostEntry rq = some e) :
    (ntpHBlkDone tr s env rq).reqs =
        Function.update s.reqs (ntpSlot rq) { e with rq := 0, record := doneRec tr env e.record } ∧
      (ntpHBlkDone tr s env rq).events = (hostEmit s env (doneRec tr env e.record)).events ∧
      (ntpHBlkDone tr s env rq).rxCtx = s.rxCtx := by
  rw [ntpHBlkDone, if_neg h0, he]
  refine ⟨?_, ?_, ?_⟩
  · simp only [HostState.inflightAdd, HostState.setEntry, forgetCid_reqs, hostEmit_reqs]
  · simp only [HostState.inflightAdd, HostState.setEntry, forgetCid_events]
  · simp only [HostState.inflightAdd, HostState.setEntry, forgetCid, hostEmit]
    split <;> split <;> rfl

end Ntprof.Bpf
