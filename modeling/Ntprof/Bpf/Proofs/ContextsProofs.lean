import Ntprof.Bpf.Contexts
import Ntprof.Bpf.Proofs.AttemptsProofs

/-!
# Contexts are not misattributed, in a clean run

Each hook does to the tags of a context what its event says: an entry stores its thread's tag, an exit
clears it where it finds it, and every other hook keeps the tags. The rule for per-CPU contexts then
applies to the four of them.
-/

namespace Ntprof.Bpf

open CpuContext

/-! ## Tags of one context -/

section Tags

variable {γ : Type} [Tagged γ] {slots : Nat → γ} {env : HookEnv} {c c' : γ}

theorem ntpCtxGet_eq_some : ntpCtxGet slots env = some c ↔
    Tagged.tid (slots env.cpu) = env.tid ∧ slots env.cpu = c := by
  unfold ntpCtxGet
  split <;> simp_all

theorem ctxTags_put (slots : Nat → γ) (env : HookEnv) (c : γ) :
    ctxTags (ctxPut slots env c) = Function.update (ctxTags slots) env.cpu (Tagged.tid c) := by
  funext i
  by_cases hi : i = env.cpu
  · simp [ctxTags, ctxPut, hi]
  · simp [ctxTags, ctxPut, hi]

/-- A hook that writes into the context it found keeps the tags. -/
theorem ctxTags_write (hc : ntpCtxGet slots env = some c) (htid : Tagged.tid c' = Tagged.tid c) :
    ctxTags (ctxPut slots env c') = ctxTags slots := by
  obtain ⟨-, rfl⟩ := ntpCtxGet_eq_some.mp hc
  rw [ctxTags_put, htid]
  exact Function.update_eq_self ..

/-- An exit hook that clears the tag of the context it found. -/
theorem ctxTags_drop (hc : ntpCtxGet slots env = some c) (htid : Tagged.tid c' = 0) :
    ctxTags (ctxPut slots env c') = tagStep (ctxTags slots) (.leave env.cpu env.tid) := by
  rw [ctxTags_put, htid, tagStep, if_pos]
  exact (ntpCtxGet_eq_some.mp hc).1

theorem tagStep_leave_none (hc : ntpCtxGet slots env = none) :
    tagStep (ctxTags slots) (.leave env.cpu env.tid) = ctxTags slots := by
  rw [tagStep, if_neg]
  intro htid
  rw [ntpCtxGet_eq_some.mpr ⟨htid, rfl⟩] at hc
  cases hc

theorem ctxTags_clear (slots : Nat → γ) (env : HookEnv) :
    ctxTags (ctxClear slots env) = tagStep (ctxTags slots) (.leave env.cpu env.tid) := by
  cases hc : ntpCtxGet slots env with
  | none => rw [tagStep_leave_none hc, ctxClear, hc]
  | some c =>
    rw [ctxClear, hc]
    exact ctxTags_drop hc (Tagged.tid_setTid c 0)

end Tags

/-! ## Hooks of a host object that keep the tags -/

/-- The tags of the three contexts of a host object are as before. -/
structure SameTags (s s' : HostState) : Prop where
  rx : ctxTags s'.rxCtx = ctxTags s.rxCtx
  send : ctxTags s'.sendCtx = ctxTags s.sendCtx
  tsend : ctxTags s'.tsendCtx = ctxTags s.tsendCtx

section Host

variable {tr : Transport} {k : Layout} {f : Filter} {s s₁ s₂ : HostState} {env : HookEnv}

theorem SameTags.refl (s : HostState) : SameTags s s := ⟨rfl, rfl, rfl⟩

theorem SameTags.trans (h : SameTags s s₁) (h' : SameTags s₁ s₂) : SameTags s s₂ :=
  ⟨h'.rx.trans h.rx, h'.send.trans h.send, h'.tsend.trans h.tsend⟩

theorem sameTags_setRec (s : HostState) (rq : U64) (r : HostRec) : SameTags s (s.setRec rq r) :=
  ⟨rfl, rfl, rfl⟩

theorem sameTags_setEntry (s : HostState) (rq : U64) (e : HostEntry) (d : S64) :
    SameTags s ((s.setEntry rq e).inflightAdd d) :=
  ⟨rfl, rfl, rfl⟩

theorem sameTags_stampRec (s : HostState) (rq : U64) (i : HostTs) (t : U64) :
    SameTags s (s.stampRec rq i t) := by
  unfold HostState.stampRec
  split
  · exact .refl s
  · exact sameTags_setRec ..

theorem sameTags_if_uncount (b : Bool) (s : HostState) (rq : U64) (bits : U32) (forget : Bool) :
    SameTags s (if b then s.uncount rq bits forget else s) := by
  split
  · unfold HostState.uncount
    split
    · exact .refl s
    · exact ⟨rfl, rfl, rfl⟩
  · exact .refl s

theorem sameTags_countRequest (rq driverData : U64) :
    SameTags s (countRequest f s rq driverData).1 := by
  unfold countRequest
  split
  · dsimp only
    split
    · exact ⟨rfl, rfl, rfl⟩
    · split <;> exact ⟨rfl, rfl, rfl⟩
  · exact .refl s

theorem sameTags_hostQueueRq (rq : KAddr) (driverData : U64) :
    SameTags s (hostQueueRq f s env rq driverData) := by
  unfold hostQueueRq
  split
  · exact .refl s
  · exact (sameTags_countRequest rq driverData).trans ⟨rfl, rfl, rfl⟩

theorem sameTags_ntpHSetupCmd (a : SetupArgs) : SameTags s (ntpHSetupCmd tr f s env a) := by
  have htake : SameTags s (takePending tr f s env a) := by
    unfold takePending
    split <;> exact ⟨rfl, rfl, rfl⟩
  have hcount : ∀ (s : HostState) (opcode : U8) (bytes : U32),
      SameTags s (countThroughput s opcode bytes) := by
    intro s opcode bytes
    unfold countThroughput
    split <;> exact ⟨rfl, rfl, rfl⟩
  have hstore : ∀ (s : HostState) (rq queue : U64) (r : HostRec),
      SameTags s (storeHostRec s rq queue r) := by
    intro s rq queue r
    unfold storeHostRec
    dsimp only
    split <;> exact ⟨rfl, rfl, rfl⟩
  unfold ntpHSetupCmd
  split
  · exact .refl s
  · dsimp only
    split
    · exact htake
    · split
      · exact htake
      · split
        · exact htake.trans (hcount ..)
        · exact (htake.trans (hcount ..)).trans (hstore ..)

theorem sameTags_hostComplete (f : Filter) (s : HostState) (env : HookEnv) (rq : U64) :
    SameTags s (hostComplete f s env rq).1 := by
  unfold hostComplete
  split
  · exact .refl s
  · split
    · exact .refl s
    · rename_i c hc
      have hu := sameTags_if_uncount f.trackQueues s rq (cntUnsent ||| cntInflight) true
      dsimp only
      split
      · exact hu
      · dsimp only
        split
        · refine hu.trans ⟨?_, rfl, rfl⟩
          have hctx : (if f.trackQueues = true then s.uncount rq (cntUnsent ||| cntInflight) true
              else s).rxCtx = s.rxCtx := by
            split
            · unfold HostState.uncount
              split <;> rfl
            · rfl
          exact ctxTags_write (c := c) (by rw [← hc]; exact congrArg (ntpCtxGet · env) hctx) rfl
        · exact hu.trans (sameTags_setRec ..)

theorem sameTags_onComplete (rq : KAddr) (c2hData : Bool) :
    SameTags s (onComplete f s env rq c2hData) := by
  have hc := sameTags_hostComplete f s env rq
  unfold onComplete
  split
  · rename_i s₁ hs₁
    rw [hs₁] at hc
    exact hc
  · rename_i s₁ hs₁
    rw [hs₁] at hc
    split
    · exact hc
    · split
      · exact hc
      · split
        · exact hc.trans (sameTags_setRec ..)
        · exact hc

theorem sameTags_ntpHNvmeDone (rq : KAddr) : SameTags s (ntpHNvmeDone s env rq) := by
  unfold ntpHNvmeDone
  split
  · exact .refl s
  · exact sameTags_stampRec ..

theorem sameTags_ntpHBlkDone (rq : U64) : SameTags s (ntpHBlkDone tr s env rq) := by
  unfold ntpHBlkDone
  split
  · exact .refl s
  · split
    · exact .refl s
    · have hemit : ∀ r : HostRec, SameTags s (hostEmit s env r) := by
        intro r
        unfold hostEmit
        split <;> exact ⟨rfl, rfl, rfl⟩
      have hforget : ∀ (s : HostState) (queue : U64) (cid : U16) (rq : U64),
          SameTags s (forgetCid s queue cid rq) := by
        intro s queue cid rq
        unfold forgetCid
        dsimp only
        split <;> exact ⟨rfl, rfl, rfl⟩
      exact ((hemit _).trans (hforget ..)).trans (sameTags_setEntry ..)

theorem sameTags_tcpOnSendDone (s : HostState) (req : U64) (ret : BitVec 32) (cmdPdu moreToSend : Bool) :
    SameTags s (tcpOnSendDone k f s env req ret cmdPdu moreToSend) := by
  unfold tcpOnSendDone
  split
  · exact .refl s
  · have hu := sameTags_if_uncount (cmdPdu && f.trackQueues) s (rqFromPdu k req) cntUnsent false
    dsimp only
    split
    · exact hu
    · split
      · exact hu
      · split
        · exact hu.trans (sameTags_setRec ..)
        · split
          · exact hu.trans (sameTags_setRec ..)
          · exact hu

theorem sameTags_onSendH2c (s : HostState) (req : U64) : SameTags s (onSendH2c k s env req) := by
  unfold onSendH2c
  split
  · exact .refl s
  · split
    · exact .refl s
    · split
      · exact sameTags_setRec ..
      · exact .refl s

theorem sameTags_onSockSend (userData : U64) (request : Option QueueRequest) :
    SameTags s (onSockSend k f s env userData request) := by
  unfold onSockSend
  split
  · exact .refl s
  · split
    · exact .refl s
    · rename_i c hc
      split
      · exact .refl s
      · split
        · exact .refl s
        · rename_i q
          have ht : SameTags s { s with tsendCtx := ctxPut s.tsendCtx env (c.found q) } :=
            ⟨rfl, rfl, ctxTags_write hc rfl⟩
          exact ht.trans (sameTags_onSendH2c ..)

theorem sameTags_switchRead (s : HostState) (env : HookEnv) (c : HostRx) : SameTags s (switchRead s env c) := by
  unfold switchRead
  split
  · split
    · exact .refl s
    · exact sameTags_setRec ..
  · exact .refl s

theorem sameTags_copyData {c : HostRx} (hc : ntpCtxGet s.rxCtx env = some c) (rq : U64)
    (e : HostEntry) : SameTags s (copyData s env c rq e) := by
  have hs := sameTags_setRec s rq (e.record.stamp .c2hLastArr c.arrival)
  unfold copyData
  dsimp only
  split
  · exact hs
  · have hw := hs.trans (sameTags_switchRead _ env c)
    split
    · exact hw
    · refine hw.trans ⟨?_, rfl, rfl⟩
      refine ctxTags_write (c := c) ?_ rfl
      rw [switchRead_rxCtx]
      exact hc

theorem sameTags_hostOnCopy (skb : U64) (pdu : Option U16) :
    SameTags s (hostOnCopy f s env skb pdu) := by
  unfold hostOnCopy
  split
  · exact .refl s
  · split
    · exact .refl s
    · rename_i c hc
      split
      · exact .refl s
      · split
        · exact .refl s
        · split
          · exact .refl s
          · split
            · exact .refl s
            · exact sameTags_copyData hc ..

theorem sameTags_onR2t (req : U64) : SameTags s (onR2t k s env req) := by
  unfold onR2t
  split
  · exact .refl s
  · split
    · exact .refl s
    · split <;> exact sameTags_setRec ..

theorem sameTags_onPosted (s : HostState) (qe : U64) (ret : BitVec 32) :
    SameTags s (onPosted k f s env qe ret) := by
  unfold onPosted
  split
  · exact .refl s
  · exact (sameTags_if_uncount f.trackQueues ..).trans (sameTags_stampRec ..)

theorem sameTags_ntpHrPostKr (ret : BitVec 32) : SameTags s (ntpHrPostKr k f s env ret) := by
  unfold ntpHrPostKr
  split
  · exact .refl s
  · have hc : SameTags s { s with postCtx := ctxClear s.postCtx env } := ⟨rfl, rfl, rfl⟩
    exact hc.trans (sameTags_onPosted ..)

/-! ## Entries and exits of a host object -/

theorem onRecvSkb_tags (skb userData : U64) (tstamp : S64) :
    ctxTags (onRecvSkb f s env skb userData tstamp).rxCtx =
      tagStep (ctxTags s.rxCtx) (.enter env.cpu env.tid (!s.idle f)) := by
  unfold onRecvSkb
  cases s.idle f with
  | true => rfl
  | false => exact ctxTags_put ..

theorem onRecvSkbExit_tags :
    ctxTags (onRecvSkbExit s env).rxCtx = tagStep (ctxTags s.rxCtx) (.leave env.cpu env.tid) := by
  cases hc : ntpCtxGet s.rxCtx env with
  | none => rw [tagStep_leave_none hc, onRecvSkbExit, hc]
  | some c =>
    simp only [onRecvSkbExit, hc, recvSkbLeave]
    exact ctxTags_drop hc rfl

theorem rdma_enter_tags (s : HostState) (env : HookEnv) (s₁ : HostState) (h : SameTags s s₁)
    (qpContext : U64) :
    ctxTags (hostRxEnter s₁.rxCtx env qpContext 0 0 0) =
      tagStep (ctxTags s.rxCtx) (.enter env.cpu env.tid true) := by
  rw [hostRxEnter, ctxTags_put, h.rx]
  rfl

theorem rx_tcp_tags (e : HostTcpEvent) :
    ctxTags (e.run k f s env).rxCtx = tagStep (ctxTags s.rxCtx) (rxOp .tcp f s (.tcp env e)) := by
  cases e with
  | queueRq rq driverData => exact (sameTags_hostQueueRq rq driverData).rx
  | sendFx req ret cmdPdu moreToSend => exact (sameTags_tcpOnSendDone ..).rx
  | sendKp req => rfl
  | sendKr ret cmdPdu moreToSend =>
    simp only [HostTcpEvent.run, sendExit]
    split
    · rfl
    · exact (sameTags_tcpOnSendDone ..).rx
  | sendH2c req => exact (sameTags_onSendH2c ..).rx
  | trySend queue request =>
    simp only [HostTcpEvent.run, trySendEnter]
    split
    · rfl
    · split
      · rfl
      · exact (sameTags_onSendH2c ..).rx
  | sockSend userData request => exact (sameTags_onSockSend ..).rx
  | trySendDone ret sent moreToSend =>
    simp only [HostTcpEvent.run, trySendExit]
    split
    · rfl
    · split
      · rfl
      · exact ((sameTags_if_uncount ..).trans (sameTags_tcpOnSendDone ..)).rx
  | recvSkb skb userData tstamp => exact onRecvSkb_tags ..
  | recvSkbExit => exact onRecvSkbExit_tags
  | copy skb pdu => exact (sameTags_hostOnCopy ..).rx
  | r2t req => exact (sameTags_onR2t req).rx
  | complete rq c2hData => exact (sameTags_onComplete ..).rx

theorem rx_rdma_tags (e : HostRdmaEvent) :
    ctxTags (e.run k f s env).rxCtx = tagStep (ctxTags s.rxCtx) (rxOp .rdma f s (.rdma env e)) := by
  cases e with
  | queueRq rq driverData => exact (sameTags_hostQueueRq rq driverData).rx
  | postFx qe ret => exact (sameTags_onPosted ..).rx
  | postKp qe => rfl
  | postKr ret => exact (sameTags_ntpHrPostKr ret).rx
  | sendDone wrCqe qpContext =>
    simp only [HostRdmaEvent.run, rdmaOnSendDone, rxOp, if_true]
    cases s.idle f with
    | true => rfl
    | false => exact rdma_enter_tags s env _ (sameTags_stampRec ..) qpContext
  | recvDone qpContext cid =>
    simp only [HostRdmaEvent.run, rdmaOnRecvDone, rxOp, if_true]
    cases s.idle f with
    | true => rfl
    | false =>
      refine rdma_enter_tags s env _ ?_ qpContext
      split
      · exact .refl s
      · exact sameTags_stampRec ..
  | invDone qpContext =>
    simp only [HostRdmaEvent.run, onInvDone, rxOp, if_true]
    cases s.idle f with
    | true => rfl
    | false => exact rdma_enter_tags s env _ (.refl s) qpContext
  | rxExit => exact ctxTags_clear ..
  | complete rq => exact (sameTags_hostComplete f s env rq).rx

/-- `rx_ctx` of a host object. -/
def rxView (tr : Transport) (k : Layout) (f : Filter) : View HostState HostEvent U64 where
  step := hostStep tr k f
  tag s := ctxTags s.rxCtx
  op := rxOp tr f
  tag_step s e := by
    cases e with
    | arm on => rfl
    | setupCmd env a => exact (sameTags_ntpHSetupCmd a).rx
    | nvmeDone env rq => exact (sameTags_ntpHNvmeDone rq).rx
    | blkDone env rq => exact (sameTags_ntpHBlkDone rq).rx
    | tcp env e =>
      cases tr with
      | tcp => exact rx_tcp_tags e
      | rdma => cases e <;> rfl
    | rdma env e =>
      cases tr with
      | tcp => cases e <;> rfl
      | rdma => exact rx_rdma_tags e

theorem send_tcp_tags (e : HostTcpEvent) :
    ctxTags (e.run k f s env).sendCtx = tagStep (ctxTags s.sendCtx) (sendOp .tcp (.tcp env e)) := by
  cases e with
  | queueRq rq driverData => exact (sameTags_hostQueueRq rq driverData).send
  | sendFx req ret cmdPdu moreToSend => exact (sameTags_tcpOnSendDone ..).send
  | sendKp req => exact ctxTags_put ..
  | sendKr ret cmdPdu moreToSend =>
    simp only [HostTcpEvent.run, sendExit, sendOp, if_true]
    split
    · rename_i hc
      rw [tagStep_leave_none hc]
    · rw [(sameTags_tcpOnSendDone ..).send]
      exact ctxTags_clear ..
  | sendH2c req => exact (sameTags_onSendH2c ..).send
  | trySend queue request =>
    simp only [HostTcpEvent.run, trySendEnter]
    split
    · rfl
    · split
      · rfl
      · exact (sameTags_onSendH2c ..).send
  | sockSend userData request => exact (sameTags_onSockSend ..).send
  | trySendDone ret sent moreToSend =>
    simp only [HostTcpEvent.run, trySendExit]
    split
    · rfl
    · split
      · rfl
      · exact ((sameTags_if_uncount ..).trans (sameTags_tcpOnSendDone ..)).send
  | recvSkb skb userData tstamp =>
    simp only [HostTcpEvent.run, onRecvSkb]
    split <;> rfl
  | recvSkbExit =>
    simp only [HostTcpEvent.run, onRecvSkbExit, recvSkbData]
    split
    · rfl
    · split
      · rfl
      · split <;> rfl
  | copy skb pdu => exact (sameTags_hostOnCopy ..).send
  | r2t req => exact (sameTags_onR2t req).send
  | complete rq c2hData => exact (sameTags_onComplete ..).send

theorem tsend_tcp_tags (e : HostTcpEvent) :
    ctxTags (e.run k f s env).tsendCtx =
      tagStep (ctxTags s.tsendCtx) (tsendOp .tcp f s (.tcp env e)) := by
  cases e with
  | queueRq rq driverData => exact (sameTags_hostQueueRq rq driverData).tsend
  | sendFx req ret cmdPdu moreToSend => exact (sameTags_tcpOnSendDone ..).tsend
  | sendKp req => rfl
  | sendKr ret cmdPdu moreToSend =>
    simp only [HostTcpEvent.run, sendExit]
    split
    · rfl
    · exact (sameTags_tcpOnSendDone ..).tsend
  | sendH2c req => exact (sameTags_onSendH2c ..).tsend
  | trySend queue request =>
    have hstart : Tagged.tid (tsendStart env queue request) = env.tid := by
      cases request <;> rfl
    simp only [HostTcpEvent.run, trySendEnter, tsendOp, if_true]
    cases s.idle f with
    | true => rfl
    | false =>
      have hput := ctxTags_put s.tsendCtx env (tsendStart env queue request)
      rw [hstart] at hput
      cases request with
      | none => exact hput
      | some q => exact (sameTags_onSendH2c ..).tsend.trans hput
  | sockSend userData request => exact (sameTags_onSockSend ..).tsend
  | trySendDone ret sent moreToSend =>
    simp only [HostTcpEvent.run, trySendExit, tsendOp, if_true]
    split
    · rename_i hc
      rw [tagStep_leave_none hc]
    · split
      · exact ctxTags_clear ..
      · rw [((sameTags_if_uncount ..).trans (sameTags_tcpOnSendDone ..)).tsend]
        exact ctxTags_clear ..
  | recvSkb skb userData tstamp =>
    simp only [HostTcpEvent.run, onRecvSkb]
    split <;> rfl
  | recvSkbExit =>
    simp only [HostTcpEvent.run, onRecvSkbExit, recvSkbData]
    split
    · rfl
    · split
      · rfl
      · split <;> rfl
  | copy skb pdu => exact (sameTags_hostOnCopy ..).tsend
  | r2t req => exact (sameTags_onR2t req).tsend
  | complete rq c2hData => exact (sameTags_onComplete ..).tsend

/-- The hooks of NVMe/RDMA know nothing of the contexts of sending over TCP. -/
theorem send_rdma_tags (e : HostRdmaEvent) :
    ctxTags (e.run k f s env).sendCtx = ctxTags s.sendCtx ∧
      ctxTags (e.run k f s env).tsendCtx = ctxTags s.tsendCtx := by
  have hsame : ∀ {s' : HostState}, SameTags s s' →
      ctxTags s'.sendCtx = ctxTags s.sendCtx ∧ ctxTags s'.tsendCtx = ctxTags s.tsendCtx :=
    fun h => ⟨h.send, h.tsend⟩
  cases e with
  | queueRq rq driverData => exact hsame (sameTags_hostQueueRq rq driverData)
  | postFx qe ret => exact hsame (sameTags_onPosted ..)
  | postKp qe => exact ⟨rfl, rfl⟩
  | postKr ret => exact hsame (sameTags_ntpHrPostKr ret)
  | sendDone wrCqe qpContext =>
    simp only [HostRdmaEvent.run, rdmaOnSendDone]
    split
    · exact ⟨rfl, rfl⟩
    · have h := sameTags_stampRec s (rqOfSqe k wrCqe) .sendDone env.now
      exact ⟨h.send, h.tsend⟩
  | recvDone qpContext cid =>
    simp only [HostRdmaEvent.run, rdmaOnRecvDone]
    split
    · exact ⟨rfl, rfl⟩
    · split
      · exact ⟨rfl, rfl⟩
      · rename_i rq _
        have h := sameTags_stampRec s rq .rspArr env.now
        exact ⟨h.send, h.tsend⟩
  | invDone qpContext =>
    simp only [HostRdmaEvent.run, onInvDone]
    split <;> exact ⟨rfl, rfl⟩
  | rxExit => exact ⟨rfl, rfl⟩
  | complete rq => exact hsame (sameTags_hostComplete f s env rq)

/-- `send_ctx` of a host object. -/
def sendView (tr : Transport) (k : Layout) (f : Filter) : View HostState HostEvent U64 where
  step := hostStep tr k f
  tag s := ctxTags s.sendCtx
  op _ := sendOp tr
  tag_step s e := by
    cases e with
    | arm on => rfl
    | setupCmd env a => exact (sameTags_ntpHSetupCmd a).send
    | nvmeDone env rq => exact (sameTags_ntpHNvmeDone rq).send
    | blkDone env rq => exact (sameTags_ntpHBlkDone rq).send
    | tcp env e =>
      cases tr with
      | tcp => exact send_tcp_tags e
      | rdma => cases e <;> rfl
    | rdma env e =>
      cases tr with
      | tcp => rfl
      | rdma => exact (send_rdma_tags e).1

/-- `tsend_ctx` of a host object. -/
def tsendView (tr : Transport) (k : Layout) (f : Filter) : View HostState HostEvent U64 where
  step := hostStep tr k f
  tag s := ctxTags s.tsendCtx
  op := tsendOp tr f
  tag_step s e := by
    cases e with
    | arm on => rfl
    | setupCmd env a => exact (sameTags_ntpHSetupCmd a).tsend
    | nvmeDone env rq => exact (sameTags_ntpHNvmeDone rq).tsend
    | blkDone env rq => exact (sameTags_ntpHBlkDone rq).tsend
    | tcp env e =>
      cases tr with
      | tcp => exact tsend_tcp_tags e
      | rdma => cases e <;> rfl
    | rdma env e =>
      cases tr with
      | tcp => rfl
      | rdma => exact (send_rdma_tags e).2

end Host

/-! ## The context of a target object -/

section Target

variable {tr : Transport} {f : Filter} {s : TgtState} {env : HookEnv}

@[simp]
theorem uncount_tgtCtx (s : TgtState) (req : U64) (bits : U32) (forget : Bool) :
    (s.uncount req bits forget).tgtCtx = s.tgtCtx := by
  unfold TgtState.uncount
  split <;> rfl

@[simp]
theorem tgtUncount_tgtCtx (s : TgtState) (f : Filter) (req : U64) :
    (s.tgtUncount f req).tgtCtx = s.tgtCtx := by
  unfold TgtState.tgtUncount
  split
  · exact uncount_tgtCtx ..
  · rfl

@[simp]
theorem countRespQueued_tgtCtx (s : TgtState) (req : U64) : (s.countRespQueued req).tgtCtx = s.tgtCtx := by
  unfold TgtState.countRespQueued
  split
  · rfl
  · split <;> rfl

@[simp]
theorem count_tgtCtx (s : TgtState) (i : Counter) : (s.count i).tgtCtx = s.tgtCtx := rfl

@[simp]
theorem inflightAdd_tgtCtx (s : TgtState) (d : S64) : (s.inflightAdd d).tgtCtx = s.tgtCtx := rfl

@[simp]
theorem setEntry_tgtCtx (s : TgtState) (req : U64) (e : TgtEntry) : (s.setEntry req e).tgtCtx = s.tgtCtx :=
  rfl

@[simp]
theorem setRec_tgtCtx (s : TgtState) (req : U64) (r : TgtRec) : (s.setRec req r).tgtCtx = s.tgtCtx := rfl

@[simp]
theorem stampRec_tgtCtx (s : TgtState) (req : U64) (i : TgtTs) (t : U64) :
    (s.stampRec req i t).tgtCtx = s.tgtCtx := by
  unfold TgtState.stampRec
  split <;> rfl

@[simp]
theorem tgtEmit_tgtCtx (s : TgtState) (env : HookEnv) (req : U64) :
    (s.tgtEmit env req).tgtCtx = s.tgtCtx := by
  unfold TgtState.tgtEmit
  split
  · rfl
  · dsimp only
    split
    · rw [inflightAdd_tgtCtx, setEntry_tgtCtx, count_tgtCtx]
    · rw [inflightAdd_tgtCtx, setEntry_tgtCtx, count_tgtCtx]

@[simp]
theorem tgtFinish_tgtCtx (s : TgtState) (f : Filter) (env : HookEnv) (req : U64) :
    (s.tgtFinish f env req).tgtCtx = s.tgtCtx := by
  rw [TgtState.tgtFinish, tgtEmit_tgtCtx, tgtUncount_tgtCtx]

@[simp]
theorem rspPartDone_tgtCtx (s : TgtState) (env : HookEnv) (req : U64) (part : U32) :
    (rspPartDone s env req part).tgtCtx = s.tgtCtx := by
  unfold rspPartDone
  split
  · rfl
  · dsimp only
    split
    · rw [tgtEmit_tgtCtx, setEntry_tgtCtx]
    · rw [setEntry_tgtCtx]

theorem ntpTReqInit_tgtCtx (a : ReqInitArgs) : (ntpTReqInit tr f s env a).tgtCtx = s.tgtCtx := by
  have hours : ∀ s : TgtState, (rememberOurs tr f s env a).tgtCtx = s.tgtCtx := by
    intro s
    unfold rememberOurs
    split <;> rfl
  have hcount : ∀ s : TgtState, (countCommand f s a).1.tgtCtx = s.tgtCtx := by
    intro s
    unfold countCommand
    split
    · dsimp only
      split <;> exact uncount_tgtCtx ..
    · rfl
  have hflush : ∀ s : TgtState, (flushOpen s env a.req).tgtCtx = s.tgtCtx := by
    intro s
    unfold flushOpen
    split
    · rfl
    · split
      · rfl
      · rw [tgtEmit_tgtCtx, setRec_tgtCtx]
  have hsampled : ∀ s : TgtState, (rememberSampled tr s env a).tgtCtx = s.tgtCtx := by
    intro s
    unfold rememberSampled
    split <;> rfl
  have hstore : ∀ (s : TgtState) (r : TgtRec), (storeTgtRec s a.req r).tgtCtx = s.tgtCtx := by
    intro s r
    unfold storeTgtRec
    dsimp only
    split <;> simp
  have hq : (flushOpen ((countCommand f (rememberOurs tr f s env a) a).1.count .tgtCmds) env
      a.req).tgtCtx = s.tgtCtx := by
    rw [hflush, count_tgtCtx, hcount, hours]
  unfold ntpTReqInit
  split
  · unfold reqInitOurs
    dsimp only
    split
    · exact hq
    · split
      · exact hq
      · split
        · exact hq
        · split
          · exact hq
          · rw [hstore, hsampled, hq]
  · rfl

theorem recOfRq_hooks_tgtCtx (priv : U64) :
    (ntpTBeIssue s env priv).tgtCtx = s.tgtCtx ∧ (ntpTBeDone s env priv).tgtCtx = s.tgtCtx := by
  constructor
  · unfold ntpTBeIssue
    split <;> rfl
  · unfold ntpTBeDone
    split <;> rfl

theorem tcp_tgtCtx (e : TgtTcpEvent) : (e.run f s env).tgtCtx = s.tgtCtx := by
  cases e with
  | copy skb sk offset => rfl
  | copyDone a =>
    simp only [TgtTcpEvent.run, onCopyDone, copyDone]
    repeat' split
    all_goals simp
  | queueResp a =>
    simp only [TgtTcpEvent.run, tcpOnQueueResp]
    repeat' split
    all_goals simp
  | h2c req sk tstamp =>
    simp only [TgtTcpEvent.run, onH2c]
    repeat' split
    all_goals simp
  | sendmsg a =>
    simp only [TgtTcpEvent.run, onSendmsg, sendPdu]
    repeat' split
    all_goals simp

theorem respPosted_tgtCtx (s : TgtState) (req : U64) : (respPosted s env req).tgtCtx = s.tgtCtx := by
  unfold respPosted
  split
  · rfl
  · rw [rspPartDone_tgtCtx, setRec_tgtCtx]

theorem onQueueRespExit_tgtCtx (s : TgtState) (req : U64) :
    (onQueueRespExit f s env req).tgtCtx = s.tgtCtx := by
  unfold onQueueRespExit
  split
  · rfl
  · rw [tgtUncount_tgtCtx, respPosted_tgtCtx]

theorem rdmaOnQueueResp_tgtCtx (s : TgtState) (req : KAddr) :
    (rdmaOnQueueResp f s env req).tgtCtx = s.tgtCtx := by
  unfold rdmaOnQueueResp
  split
  · rfl
  · dsimp only
    rw [stampRec_tgtCtx]
    split
    · rw [countRespQueued_tgtCtx]
    · rfl

theorem rdma_tgtCtx (e : TgtRdmaEvent) :
    ctxTags (e.run f s env).tgtCtx = tagStep (ctxTags s.tgtCtx) (tgtOp .rdma (.rdma env e)) := by
  cases e with
  | recvDone qpContext => exact ctxTags_put ..
  | recvDoneExit => exact ctxTags_clear ..
  | execute req transferLen inlineData =>
    refine congrArg ctxTags ?_
    simp only [TgtRdmaEvent.run, onExecute]
    repeat' split
    all_goals simp
  | readDone req =>
    refine congrArg ctxTags ?_
    simp only [TgtRdmaEvent.run, onReadDone]
    repeat' split
    all_goals simp
  | queueRespFe req => exact congrArg ctxTags (rdmaOnQueueResp_tgtCtx s req)
  | queueRespFx req => exact congrArg ctxTags (onQueueRespExit_tgtCtx s req)
  | queueRespKp req =>
    refine congrArg ctxTags ?_
    rw [TgtRdmaEvent.run, ntpTrQueueRespKp, rdmaOnQueueResp_tgtCtx]
  | queueRespKr own =>
    refine congrArg ctxTags ?_
    simp only [TgtRdmaEvent.run, ntpTrQueueRespKr]
    split
    · rfl
    · rw [onQueueRespExit_tgtCtx]
  | sendDone req =>
    refine congrArg ctxTags ?_
    simp only [TgtRdmaEvent.run, onSendDone]
    repeat' split
    all_goals simp

/-- `tgt_ctx` of a target object. -/
def tgtView (tr : Transport) (f : Filter) : View TgtState TgtEvent U64 where
  step := tgtStep tr f
  tag s := ctxTags s.tgtCtx
  op _ := tgtOp tr
  tag_step s e := by
    cases e with
    | arm on => rfl
    | reqInit seen env a =>
      cases seen with
      | false => rfl
      | true => exact congrArg ctxTags (ntpTReqInit_tgtCtx a)
    | exec env req transferLen =>
      refine congrArg ctxTags ?_
      simp only [tgtStep, onExec]
      repeat' split
      all_goals simp
    | beIssue env priv => exact congrArg ctxTags (recOfRq_hooks_tgtCtx priv).1
    | beDone env priv => exact congrArg ctxTags (recOfRq_hooks_tgtCtx priv).2
    | complete env req =>
      refine congrArg ctxTags ?_
      simp only [tgtStep, ntpTComplete]
      repeat' split
      all_goals simp
    | tcp env e =>
      cases tr with
      | tcp => exact congrArg ctxTags (tcp_tgtCtx e)
      | rdma => rfl
    | rdma env e =>
      cases tr with
      | tcp => cases e <;> rfl
      | rdma => exact rdma_tgtCtx e

end Target

/-! ## Runs -/

/-- A hook that runs in `env` gets no context but the one that the entry of the call its thread is in
stored. -/
def OwnContext {γ : Type} [Tagged γ] (slots : Nat → γ) (m : Calls U64) (env : HookEnv) : Prop :=
  ∀ c, ntpCtxGet slots env = some c → m.inCall env.tid = some (m.storedBy env.cpu)

/-- What a clean run says about the slots behind a view. -/
theorem ownContext_run {γ σ ε : Type} [Tagged γ] (v : View σ ε U64) (slots : σ → Nat → γ)
    (hv : ∀ s, v.tag s = ctxTags (slots s)) {s : σ} (h0 : ∀ cpu, v.tag s cpu = 0) {es : List ε}
    (h : v.CleanRun (s, {}) es) {env : HookEnv} (ht : env.tid ≠ 0) :
    OwnContext (slots (es.foldl v.step s)) (v.run (s, {}) es).2 env := by
  have ha := v.attributed_run (fun cpu hne => absurd (h0 cpu) hne) h
  rw [v.run_fst, hv] at ha
  intro c hc
  have htag : ctxTags (slots (es.foldl v.step s)) env.cpu = env.tid := (ntpCtxGet_eq_some.mp hc).1
  have hown := ha env.cpu (by rw [htag]; exact ht)
  rwa [htag] at hown

/-- In every state that a clean run reaches, a hook on a thread with an id other than 0 gets no context
but that of its thread's call, from each of the four maps. -/
theorem contexts_not_misattributed (tr tr' : Transport) (k : Layout) (f f' : Filter)
    (hes : List HostEvent) (tes : List TgtEvent) (env : HookEnv) (ht : env.tid ≠ 0) :
    ((rxView tr k f).CleanRun ({}, {}) hes →
      OwnContext (hostRun tr k f {} hes).rxCtx ((rxView tr k f).run ({}, {}) hes).2 env) ∧
    ((sendView tr k f).CleanRun ({}, {}) hes →
      OwnContext (hostRun tr k f {} hes).sendCtx ((sendView tr k f).run ({}, {}) hes).2 env) ∧
    ((tsendView tr k f).CleanRun ({}, {}) hes →
      OwnContext (hostRun tr k f {} hes).tsendCtx ((tsendView tr k f).run ({}, {}) hes).2 env) ∧
    ((tgtView tr' f').CleanRun ({}, {}) tes →
      OwnContext (tgtRun tr' f' {} tes).tgtCtx ((tgtView tr' f').run ({}, {}) tes).2 env) := by
  refine ⟨fun h => ?_, fun h => ?_, fun h => ?_, fun h => ?_⟩
  · exact ownContext_run (rxView tr k f) HostState.rxCtx (fun _ => rfl) (fun _ => rfl) h ht
  · exact ownContext_run (sendView tr k f) HostState.sendCtx (fun _ => rfl) (fun _ => rfl) h ht
  · exact ownContext_run (tsendView tr k f) HostState.tsendCtx (fun _ => rfl) (fun _ => rfl) h
      ht
  · exact ownContext_run (tgtView tr' f') TgtState.tgtCtx (fun _ => rfl) (fun _ => rfl) h ht

/-! ### A thread that moves -/

/-- A hook of thread 7 on CPU `cpu`. -/
def onCpu (cpu : ℕ) : HookEnv := { cpu := cpu, tid := 7, now := 100 }

/-- Thread 7 receives three skbs: it is on CPU 1 for a while in the first call, and for the whole second one. -/
def comesBack : List HostEvent :=
  [.tcp (onCpu 0) (.recvSkb 0x10 0x500 0), .tcp (onCpu 1) (.copy 0x10 none), .tcp (onCpu 0) .recvSkbExit,
    .tcp (onCpu 1) (.recvSkb 0x20 0x500 0), .tcp (onCpu 1) .recvSkbExit, .tcp (onCpu 0) (.recvSkb 0x30 0x500 0)]

theorem cleanRun_comesBack : (rxView .tcp someLayout { trackQueues := true }).CleanRun ({}, {}) comesBack := by
  refine ⟨⟨by decide, rfl⟩, trivial, ⟨by decide, fun c hc => ?_⟩, ⟨by decide, rfl⟩, ⟨by decide, fun c hc => ?_⟩,
    ⟨by decide, rfl⟩, trivial⟩
  · rw [View.tag_step, View.tag_step]
    show Function.update (fun _ : ℕ => (0 : U64)) 0 7 c ≠ 7
    rw [Function.update_of_ne (show c ≠ 0 from hc)]
    decide
  · rw [View.tag_step, View.tag_step, View.tag_step, View.tag_step]
    show Function.update (Function.update (Function.update (fun _ : ℕ => (0 : U64)) 0 7) 0 0) 1 7 c ≠ 7
    rw [Function.update_of_ne (show c ≠ 1 from hc), Function.update_idem, Function.update_eq_self]
    decide

theorem contexts_not_misattributed_comesBack :
    (rxView .tcp someLayout { trackQueues := true }).CleanRun ({}, {}) comesBack ∧
      OwnContext (hostRun .tcp someLayout { trackQueues := true } {} comesBack).rxCtx
        ((rxView .tcp someLayout { trackQueues := true }).run ({}, {}) comesBack).2 (onCpu 0) :=
  ⟨cleanRun_comesBack, (contexts_not_misattributed .tcp .rdma someLayout { trackQueues := true } {} comesBack []
    (onCpu 0) (by decide)).1 cleanRun_comesBack⟩

/-- It leaves the first call on CPU 1, so that its tag stays on CPU 0, and is back there in the second. -/
def moves : List HostEvent :=
  [.tcp (onCpu 0) (.recvSkb 0x10 0x500 0), .tcp (onCpu 1) .recvSkbExit,
    .tcp (onCpu 1) (.recvSkb 0x20 0x500 0)]

/-- A hook in the second call then gets the context of the first one. -/
theorem migration_misattributes :
    ¬ OwnContext (hostRun .tcp someLayout { trackQueues := true } {} moves).rxCtx
      ((rxView .tcp someLayout { trackQueues := true }).run ({}, {}) moves).2 (onCpu 0) := by
  intro h
  have hget := h _ (ntpCtxGet_eq_some.mpr ⟨by decide +kernel, rfl⟩)
  exact absurd hget (by decide +kernel)

end Ntprof.Bpf
