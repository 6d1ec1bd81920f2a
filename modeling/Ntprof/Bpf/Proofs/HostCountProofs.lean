import Ntprof.Bpf.QueueCounts
import Ntprof.Bpf.Proofs.BalancedProofs

/-!
# The host's queue counts

A request enters `counted` and the counts of its queue in `->queue_rq()`, leaves `unsent` when its command is
sent and both counts when it completes. No other hook touches the two maps.
-/

namespace Ntprof.Bpf

open BpfMap PrefixRun

/-! ## The host -/

/-- The invariant of the host's counts. -/
structure HostState.CountInv (s : HostState) : Prop where
  balanced : Balanced QStat.unsent QStat.inflight Counted.queue Counted.flags s.qstats s.counted
  max : s.counted.maxEntries = 65536

/-- The two maps of the counts. -/
def HostState.counts (s : HostState) : BpfMap U64 QStat × BpfMap U64 Counted := (s.qstats, s.counted)

section Host

variable {s s' : HostState}

theorem HostState.CountInv.congr (h : s.CountInv) (heq : s'.counts = s.counts) : s'.CountInv := by
  obtain ⟨hq, hc⟩ := Prod.mk.inj heq
  constructor
  · rw [hq, hc]
    exact h.balanced
  · rw [hc]
    exact h.max

theorem HostState.countInv_init : CountInv {} where
  balanced :=
    { ok := ok_empty 65536
      first := fun _ he => absurd he List.not_mem_nil
      second := fun _ he => absurd he List.not_mem_nil
      held := fun _ he => absurd he List.not_mem_nil }
  max := rfl

theorem HostState.CountInv.exact (h : s.CountInv) : s.Exact where
  unsent := (inStep_iff h.balanced.ok h.max).mp h.balanced.first
  inflight := (inStep_iff h.balanced.ok h.max).mp h.balanced.second
  held := h.balanced.held

/-- The flags in `drop` go off the counts of a queue. -/
def QStat.dropped (drop : U32) (q : QStat) : QStat where
  unsent := if drop &&& cntUnsent ≠ 0 then q.unsent - 1 else q.unsent
  inflight := if drop &&& cntInflight ≠ 0 then q.inflight - 1 else q.inflight

theorem HostState.uncount_counts {rq : U64} {c : Counted} (hc : s.counted.lookup rq = some c) (bits : U32) :
    (s.uncount rq bits false).counts =
      (s.qstats.modify c.queue (QStat.dropped (c.flags &&& bits)),
        s.counted.modify rq fun c => { c with flags := c.flags &&& ~~~bits }) := by
  unfold HostState.uncount
  rw [hc]
  rfl

theorem HostState.forget_counts {rq : U64} {c : Counted} (hc : s.counted.lookup rq = some c) (bits : U32) :
    (s.uncount rq bits true).counts =
      (s.qstats.modify c.queue (QStat.dropped (c.flags &&& bits)), s.counted.delete rq) := by
  unfold HostState.uncount
  rw [hc]
  exact Prod.ext rfl (delete_modify _)

theorem HostState.uncount_none {rq : U64} (hc : s.counted.lookup rq = none) (bits : U32) (forget : Bool) :
    s.uncount rq bits forget = s := by
  unfold HostState.uncount
  rw [hc]

/-- `bits` of a request are dropped. -/
theorem HostState.CountInv.uncount (h : s.CountInv) (rq : U64) (bits : U32) :
    (s.uncount rq bits false).CountInv := by
  cases hc : s.counted.lookup rq with
  | none =>
    rw [uncount_none hc]
    exact h
  | some c =>
    have hclear := h.balanced.clear (u := QStat.dropped (c.flags &&& bits)) hc bits
      (g := fun c => { c with flags := c.flags &&& ~~~bits }) (fun _ => rfl) rfl (fun _ => rfl) (fun _ => rfl)
    obtain ⟨hq, hn⟩ := Prod.mk.inj (uncount_counts hc bits)
    constructor
    · rw [hq, hn]
      exact hclear
    · rw [hn]
      exact h.max

/-- A request leaves the counts. -/
theorem HostState.CountInv.forget (h : s.CountInv) (rq : U64) :
    (s.uncount rq (cntUnsent ||| cntInflight) true).CountInv := by
  cases hc : s.counted.lookup rq with
  | none =>
    rw [uncount_none hc]
    exact h
  | some c =>
    have hforget := h.balanced.forget (u := QStat.dropped (c.flags &&& (cntUnsent ||| cntInflight))) hc
      (fun v => by simp only [QStat.dropped, cntUnsent, cntInflight, and_both_one])
      (fun v => by simp only [QStat.dropped, cntUnsent, cntInflight, and_both_two])
    obtain ⟨hq, hn⟩ := Prod.mk.inj (forget_counts hc (cntUnsent ||| cntInflight))
    constructor
    · rw [hq, hn]
      exact hforget
    · rw [hn]
      exact h.max

theorem HostState.CountInv.getQstat (h : s.CountInv) (queue : U64) : (s.getQstat queue).CountInv where
  balanced := h.balanced.newQueue rfl rfl
  max := h.max

/-- What the new request adds to the counts of its queue. -/
def QStat.queued (q : QStat) : QStat := { unsent := q.unsent + 1, inflight := q.inflight + 1 }

variable {f : Filter} {rq queue : U64}

/-- A request that is counted already, or whose queue has no counts. -/
theorem countRequest_same (h : f.trackQueues = false ∨ (s.counted.lookup rq).isSome ∨
    ((s.getQstat queue).qstats.lookup queue) = none) :
    (countRequest f s rq queue).1.counts = s.counts ∨
      (countRequest f s rq queue).1.counts = (s.getQstat queue).counts := by
  unfold countRequest
  cases hf : f.trackQueues with
  | false => exact Or.inl rfl
  | true =>
    right
    rw [if_pos rfl]
    cases hq : (s.getQstat queue).qstats.lookup queue with
    | none => simp only [hq]
    | some q =>
      have hsome : ((s.getQstat queue).counted.lookup rq).isSome := by
        rcases h with h | h | h
        · exact absurd h (by simp [hf])
        · exact h
        · exact absurd h (by simp [hq])
      simp only [hq, if_pos hsome]

/-- A new request goes on the counts of its queue, and into `counted` if there is room. -/
theorem countRequest_new (hf : f.trackQueues = true) (hc : s.counted.lookup rq = none)
    (hq : ((s.getQstat queue).qstats.lookup queue).isSome) :
    (countRequest f s rq queue).1.counts =
      ((s.getQstat queue).qstats.modify queue QStat.queued,
        s.counted.updateAny rq ⟨queue, cntUnsent ||| cntInflight⟩) := by
  obtain ⟨q, hq⟩ := Option.isSome_iff_exists.mp hq
  have hnone : ¬ ((s.getQstat queue).counted.lookup rq).isSome := by
    show ¬ (s.counted.lookup rq).isSome
    rw [hc]
    simp
  unfold countRequest
  rw [if_pos hf]
  simp only [hq, if_neg hnone]
  rfl

theorem HostState.CountInv.countRequest (h : s.CountInv)
    (hroom : f.trackQueues = true → s.counted.lookup rq = none →
      ((s.getQstat queue).qstats.lookup queue).isSome → s.counted.full = false) :
    (countRequest f s rq queue).1.CountInv := by
  by_cases hnew : f.trackQueues = true ∧ s.counted.lookup rq = none ∧
      ((s.getQstat queue).qstats.lookup queue).isSome
  · obtain ⟨hf, hc, hq⟩ := hnew
    have hone : decide ((cntUnsent ||| cntInflight) &&& 1 ≠ 0) = true := by decide
    have htwo : decide ((cntUnsent ||| cntInflight) &&& 2 ≠ 0) = true := by decide
    have hcount := (h.getQstat queue).balanced.count (u := QStat.queued)
      (c := ⟨queue, cntUnsent ||| cntInflight⟩) hc (hroom hf hc hq) hq
      (fun _ => by rw [hone]; rfl) (fun _ => by rw [htwo]; rfl)
    obtain ⟨hqs, hn⟩ := Prod.mk.inj (countRequest_new hf hc hq)
    constructor
    · rw [hqs, hn]
      exact hcount
    · rw [hn, updateAny_of_none hc, updateNoExist_of_room hc (hroom hf hc hq)]
      exact h.max
  · have hsame : f.trackQueues = false ∨ (s.counted.lookup rq).isSome ∨
        ((s.getQstat queue).qstats.lookup queue) = none := by
      by_contra hcon
      push Not at hcon
      obtain ⟨h1, h2, h3⟩ := hcon
      exact hnew ⟨by simpa using h1, by simpa using h2, Option.ne_none_iff_isSome.mp h3⟩
    rcases countRequest_same hsame with heq | heq
    · exact h.congr heq
    · exact (h.getQstat queue).congr heq

/-- A request that is counted while `counted` is full is lost. -/
theorem HostState.CountInv.not_exact (h : s.CountInv) (hf : f.trackQueues = true)
    (hc : s.counted.lookup rq = none) (hq : ((s.getQstat queue).qstats.lookup queue).isSome)
    (hfull : s.counted.full = true) (heq : s'.counts = (Ntprof.Bpf.countRequest f s rq queue).1.counts) :
    ¬ s'.Exact := by
  intro hex
  rw [countRequest_new hf hc hq, updateAny_of_none hc, updateNoExist_of_full hfull] at heq
  obtain ⟨hqs, hn⟩ := Prod.mk.inj heq
  have hbefore := (h.getQstat queue).balanced
  refine not_inStep_of_lost (u := QStat.queued) hbefore.first hq (fun _ => rfl) ?_
  refine (inStep_iff h.balanced.ok h.max).mpr ?_
  intro e he
  rw [← hqs] at he
  have hcount := hex.unsent e he
  rw [hn] at hcount
  exact hcount

/-! The other parts of a hook leave the counts alone. -/

@[simp] theorem HostState.inflightAdd_counts (d : S64) : (s.inflightAdd d).counts = s.counts := rfl

@[simp] theorem HostState.setEntry_counts (rq : U64) (e : HostEntry) : (s.setEntry rq e).counts = s.counts := rfl

@[simp] theorem HostState.setRec_counts (rq : U64) (r : HostRec) : (s.setRec rq r).counts = s.counts := rfl

@[simp] theorem HostState.stampRec_counts (rq : U64) (i : HostTs) (t : U64) :
    (s.stampRec rq i t).counts = s.counts := by
  unfold HostState.stampRec
  split <;> rfl

theorem HostState.CountInv.hostQueueRq (h : s.CountInv) {env : HookEnv} {rq : KAddr}
    (hroom : s.armed = true → f.trackQueues = true → s.counted.lookup rq = none →
      ((s.getQstat queue).qstats.lookup queue).isSome → s.counted.full = false) :
    (hostQueueRq f s env rq queue).CountInv := by
  unfold Ntprof.Bpf.hostQueueRq
  cases harmed : s.armed with
  | false => exact h
  | true => exact (h.countRequest (hroom harmed)).congr rfl

theorem HostState.CountInv.if_uncount (h : s.CountInv) (b : Bool) (rq : U64) (bits : U32) :
    (if b then s.uncount rq bits false else s).CountInv := by
  cases b with
  | false => exact h
  | true => exact h.uncount rq bits

theorem HostState.CountInv.if_forget (h : s.CountInv) (b : Bool) (rq : U64) :
    (if b then s.uncount rq (cntUnsent ||| cntInflight) true else s).CountInv := by
  cases b with
  | false => exact h
  | true => exact h.forget rq

theorem HostState.CountInv.hostComplete (h : s.CountInv) (env : HookEnv) (rq : U64) :
    (hostComplete f s env rq).1.CountInv := by
  have hforget := h.if_forget f.trackQueues rq
  unfold Ntprof.Bpf.hostComplete
  by_cases hidle : s.idle f = true
  · rw [if_pos hidle]
    exact h
  rw [if_neg hidle]
  cases ntpCtxGet s.rxCtx env with
  | none => exact h
  | some c =>
    dsimp only
    generalize (if f.trackQueues then s.uncount rq (cntUnsent ||| cntInflight) true else s) = s₁ at hforget
    split
    · exact hforget
    · split_ifs <;> exact hforget.congr rfl

section HostHooks

variable {k : Layout} {env : HookEnv}

theorem HostState.CountInv.tcpOnSendDone (h : s.CountInv) (req : U64) (ret : BitVec 32)
    (cmdPdu moreToSend : Bool) : (tcpOnSendDone k f s env req ret cmdPdu moreToSend).CountInv := by
  have hun := h.if_uncount (cmdPdu && f.trackQueues) (rqFromPdu k req) cntUnsent
  unfold Ntprof.Bpf.tcpOnSendDone
  by_cases hskip : ret ≠ 1 ∨ s.idle f
  · rw [if_pos hskip]
    exact h
  rw [if_neg hskip]
  dsimp only
  generalize (if (cmdPdu && f.trackQueues) = true then _ else s) = s₁ at hun
  cases moreToSend with
  | true => exact hun
  | false =>
    rw [if_neg (by simp)]
    split
    · exact hun
    · split_ifs <;> exact hun.congr rfl

theorem onSendH2c_counts (req : U64) : (onSendH2c k s env req).counts = s.counts := by
  unfold onSendH2c
  split_ifs
  · rfl
  split
  · rfl
  · split_ifs <;> rfl

theorem trySendEnter_counts (q : U64) (request : Option QueueRequest) :
    (trySendEnter k f s env q request).counts = s.counts := by
  unfold trySendEnter
  split_ifs
  · rfl
  cases request with
  | none => rfl
  | some r => exact onSendH2c_counts _

theorem onSockSend_counts (userData : U64) (request : Option QueueRequest) :
    (onSockSend k f s env userData request).counts = s.counts := by
  unfold onSockSend
  split_ifs
  · rfl
  split
  · rfl
  · split_ifs
    · rfl
    · cases request with
      | none => rfl
      | some r => exact onSendH2c_counts _

theorem HostState.CountInv.trySendExit (h : s.CountInv) (ret : BitVec 32) (sent moreToSend : Bool) :
    (trySendExit k f s env ret sent moreToSend).CountInv := by
  unfold Ntprof.Bpf.trySendExit
  split
  · exact h
  · rename_i c _
    have hctx : HostState.CountInv { s with tsendCtx := trySendLeave s.tsendCtx env } := h.congr rfl
    dsimp only
    split_ifs
    · exact hctx
    · exact (hctx.uncount _ _).tcpOnSendDone _ _ _ _
    · exact hctx.tcpOnSendDone _ _ _ _

theorem recvSkbData_counts (c : HostRx) : (recvSkbData s env c).counts = s.counts := by
  unfold recvSkbData
  split_ifs
  · rfl
  · split <;> rfl

theorem switchRead_counts (c : HostRx) : (switchRead s env c).counts = s.counts := by
  unfold switchRead
  split_ifs
  · split <;> rfl
  · rfl

theorem hostOnCopy_counts (skb : U64) (pdu : Option U16) : (hostOnCopy f s env skb pdu).counts = s.counts := by
  have hcopy : ∀ (c : HostRx) (rq : U64) (e : HostEntry), (copyData s env c rq e).counts = s.counts := by
    intro c rq e
    unfold copyData
    dsimp only
    split_ifs
    · rfl
    · split
      · exact switchRead_counts _
      · exact switchRead_counts _
  unfold hostOnCopy
  split_ifs
  · rfl
  repeat' split
  all_goals first | rfl | exact hcopy _ _ _

theorem onR2t_counts (req : U64) : (onR2t k s env req).counts = s.counts := by
  unfold onR2t
  split
  · rfl
  split
  · rfl
  · split_ifs <;> rfl

theorem HostState.CountInv.onComplete (h : s.CountInv) (rq : KAddr) (c2hData : Bool) :
    (onComplete f s env rq c2hData).CountInv := by
  have hdone := h.hostComplete (f := f) env rq
  unfold Ntprof.Bpf.onComplete
  split
  · rename_i heq
    rw [heq] at hdone
    exact hdone
  · rename_i heq
    rw [heq] at hdone
    split
    · exact hdone
    · split_ifs <;> exact hdone.congr rfl

theorem HostState.CountInv.onPosted (h : s.CountInv) (qe : U64) (ret : BitVec 32) :
    (onPosted k f s env qe ret).CountInv := by
  have hun := h.if_uncount f.trackQueues (rqOfSqe k qe) cntUnsent
  unfold Ntprof.Bpf.onPosted
  by_cases hskip : ret ≠ 0 ∨ s.idle f
  · rw [if_pos hskip]
    exact h
  · rw [if_neg hskip]
    exact hun.congr (stampRec_counts ..)

theorem rdmaOnSendDone_counts (wrCqe qpContext : U64) :
    (rdmaOnSendDone k f s env wrCqe qpContext).counts = s.counts := by
  unfold rdmaOnSendDone
  split_ifs
  · rfl
  · exact HostState.stampRec_counts ..

theorem rdmaOnRecvDone_counts (qpContext : U64) (cid : Option U16) :
    (rdmaOnRecvDone f s env qpContext cid).counts = s.counts := by
  unfold rdmaOnRecvDone
  split_ifs
  · rfl
  · cases cid.bind (s.rqByCid qpContext) with
    | none => rfl
    | some rq => exact HostState.stampRec_counts ..

theorem ntpHSetupCmd_counts (tr : Transport) (a : SetupArgs) :
    (ntpHSetupCmd tr f s env a).counts = s.counts := by
  have htake : (takePending tr f s env a).counts = s.counts := by
    unfold takePending
    split <;> rfl
  have hput : ∀ (s : HostState) (opcode : U8) (bytes : U32), (countThroughput s opcode bytes).counts = s.counts := by
    intro s opcode bytes
    unfold countThroughput
    split_ifs <;> rfl
  have hstore : ∀ (s : HostState) (rq queue : U64) (r : HostRec), (storeHostRec s rq queue r).counts = s.counts := by
    intro s rq queue r
    unfold storeHostRec
    split_ifs <;> rfl
  unfold ntpHSetupCmd
  split
  · rfl
  dsimp only
  split
  · exact htake
  · split_ifs
    · exact htake
    · rw [hput, htake]
    · rw [hstore, hput, htake]
    · rw [hstore, hput, htake]

theorem ntpHBlkDone_counts (tr : Transport) (rq : U64) : (ntpHBlkDone tr s env rq).counts = s.counts := by
  have hemit : ∀ r, (hostEmit s env r).counts = s.counts := by
    intro r
    unfold hostEmit
    split_ifs <;> rfl
  have hforget : ∀ (s : HostState) (queue : U64) (cid : U16) (rq : U64), (forgetCid s queue cid rq).counts = s.counts := by
    intro s queue cid rq
    unfold forgetCid
    dsimp only
    split_ifs <;> rfl
  unfold ntpHBlkDone
  split_ifs
  · rfl
  split
  · rfl
  · rw [HostState.inflightAdd_counts, HostState.setEntry_counts, hforget, hemit]

end HostHooks

theorem HostEvent.queued_tcp (tr : Transport) (env : HookEnv) (rq : KAddr) (driverData : U64) :
    (HostEvent.tcp env (.queueRq rq driverData)).queued tr =
      if tr = .tcp then some (rq.val, driverData) else none := rfl

theorem HostEvent.queued_rdma (tr : Transport) (env : HookEnv) (rq : KAddr) (driverData : U64) :
    (HostEvent.rdma env (.queueRq rq driverData)).queued tr =
      if tr = .rdma then some (rq.val, driverData) else none := rfl

/-- There is room for the request of a `->queue_rq()` that does not overflow. -/
theorem room_of_not_overflow {tr : Transport} {e : HostEvent} {rq queue : U64}
    (he : e.queued tr = some (rq, queue)) (hfits : hostOverflow tr f s e = false) (harmed : s.armed = true)
    (hf : f.trackQueues = true) (hc : s.counted.lookup rq = none)
    (hq : ((s.getQstat queue).qstats.lookup queue).isSome) : s.counted.full = false := by
  have hq' : ((s.qstats.lookup queue).isSome || !s.qstats.full) = true := by
    rw [← lookup_updateNoExist_isSome s.qstats queue {}]
    exact hq
  simpa [hostOverflow, he, harmed, hf, hc, hq'] using hfits

/-- A hook that does not count a request while `counted` is full keeps the invariant. -/
theorem HostState.CountInv.step (h : s.CountInv) (tr : Transport) (k : Layout) (e : HostEvent)
    (hfits : hostOverflow tr f s e = false) : (hostStep tr k f s e).CountInv := by
  cases e with
  | arm on => exact h.congr rfl
  | setupCmd env a => exact h.congr (ntpHSetupCmd_counts tr a)
  | nvmeDone env rq =>
    show (ntpHNvmeDone s env rq).CountInv
    unfold ntpHNvmeDone
    split_ifs
    · exact h
    · exact h.congr (stampRec_counts ..)
  | blkDone env rq => exact h.congr (ntpHBlkDone_counts tr rq)
  | tcp env e =>
    show (if tr = .tcp then e.run k f s env else s).CountInv
    by_cases htr : tr = .tcp
    · rw [if_pos htr]
      cases e with
      | queueRq rq driverData =>
        have hqueued := (HostEvent.queued_tcp tr env rq driverData).trans (if_pos htr)
        exact h.hostQueueRq (room_of_not_overflow hqueued hfits)
      | sendFx req ret cmdPdu moreToSend => exact h.tcpOnSendDone ..
      | sendKp req => exact h.congr rfl
      | sendKr ret cmdPdu moreToSend =>
        show (sendExit k f s env ret cmdPdu moreToSend).CountInv
        unfold sendExit
        split
        · exact h
        · have hctx : HostState.CountInv { s with sendCtx := sendLeave s.sendCtx env } := h.congr rfl
          exact hctx.tcpOnSendDone ..
      | sendH2c req => exact h.congr (onSendH2c_counts req)
      | trySend q request => exact h.congr (trySendEnter_counts q request)
      | sockSend userData request => exact h.congr (onSockSend_counts userData request)
      | trySendDone ret sent moreToSend => exact h.trySendExit ..
      | recvSkb skb userData tstamp =>
        show (onRecvSkb f s env skb userData tstamp).CountInv
        unfold onRecvSkb
        split_ifs <;> exact h.congr rfl
      | recvSkbExit =>
        show (onRecvSkbExit s env).CountInv
        unfold onRecvSkbExit
        split
        · exact h
        · exact h.congr (recvSkbData_counts _)
      | copy skb pdu => exact h.congr (hostOnCopy_counts skb pdu)
      | r2t req => exact h.congr (onR2t_counts req)
      | complete rq c2hData => exact h.onComplete ..
    · rw [if_neg htr]
      exact h
  | rdma env e =>
    show (if tr = .rdma then e.run k f s env else s).CountInv
    by_cases htr : tr = .rdma
    · rw [if_pos htr]
      cases e with
      | queueRq rq driverData =>
        have hqueued := (HostEvent.queued_rdma tr env rq driverData).trans (if_pos htr)
        exact h.hostQueueRq (room_of_not_overflow hqueued hfits)
      | postFx qe ret => exact h.onPosted ..
      | postKp qe => exact h.congr rfl
      | postKr ret =>
        show (ntpHrPostKr k f s env ret).CountInv
        unfold ntpHrPostKr
        split
        · exact h
        · have hctx : HostState.CountInv { s with postCtx := ctxClear s.postCtx env } := h.congr rfl
          exact hctx.onPosted ..
      | sendDone wrCqe qpContext => exact h.congr (rdmaOnSendDone_counts ..)
      | recvDone qpContext cid => exact h.congr (rdmaOnRecvDone_counts ..)
      | invDone qpContext =>
        show (onInvDone f s env qpContext).CountInv
        unfold onInvDone
        split_ifs <;> exact h.congr rfl
      | rxExit => exact h.congr rfl
      | complete rq => exact h.hostComplete ..
    · rw [if_neg htr]
      exact h

theorem hostQueueRq_counts (env : HookEnv) (rq : KAddr) (harmed : s.armed = true) :
    (hostQueueRq f s env rq queue).counts = (countRequest f s rq queue).1.counts := by
  unfold hostQueueRq
  rw [harmed]
  rfl

/-- What `->queue_rq()` does to the counts. -/
theorem hostStep_queued {tr : Transport} {k : Layout} {e : HostEvent} {rq queue : U64}
    (he : e.queued tr = some (rq, queue)) (harmed : s.armed = true) :
    (hostStep tr k f s e).counts = (countRequest f s rq queue).1.counts := by
  cases e with
  | tcp env e =>
    cases e with
    | queueRq rq' driverData =>
      rw [HostEvent.queued_tcp] at he
      split_ifs at he with htr
      obtain ⟨rfl, rfl⟩ := Prod.mk.inj (Option.some.inj he)
      show (if tr = .tcp then hostQueueRq f s env rq' driverData else s).counts = _
      rw [if_pos htr]
      exact hostQueueRq_counts env rq' harmed
    | _ => exact absurd he (by simp [HostEvent.queued])
  | rdma env e =>
    cases e with
    | queueRq rq' driverData =>
      rw [HostEvent.queued_rdma] at he
      split_ifs at he with htr
      obtain ⟨rfl, rfl⟩ := Prod.mk.inj (Option.some.inj he)
      show (if tr = .rdma then hostQueueRq f s env rq' driverData else s).counts = _
      rw [if_pos htr]
      exact hostQueueRq_counts env rq' harmed
    | _ => exact absurd he (by simp [HostEvent.queued])
  | _ => exact absurd he (by simp [HostEvent.queued])

/-- A hook that does loses the request. -/
theorem HostState.CountInv.overflow (h : s.CountInv) (tr : Transport) (k : Layout) (e : HostEvent)
    (hover : hostOverflow tr f s e = true) : ¬ (hostStep tr k f s e).Exact := by
  unfold hostOverflow at hover
  cases he : e.queued tr with
  | none => simp [he] at hover
  | some rqQueue =>
    obtain ⟨rq, queue⟩ := rqQueue
    simp only [he, Bool.and_eq_true, Option.isNone_iff_eq_none] at hover
    obtain ⟨⟨⟨⟨harmed, hf⟩, hc⟩, hq⟩, hfull⟩ := hover
    rw [← lookup_updateNoExist_isSome s.qstats queue {}] at hq
    exact h.not_exact hf hc hq hfull (hostStep_queued he harmed)

/-- In every state of a run the counts are exact, if and only if none of its requests is counted while
`counted` is full. -/
theorem HostState.CountInv.run_iff (h : s.CountInv) (tr : Transport) (k : Layout) (es : List HostEvent) :
    (∀ es', es' <+: es → (hostRun tr k f s es').Exact) ↔ hostFits tr k f s es = true :=
  forall_prefix_iff (fun _ hs => hs.exact) (fun _ e hs he => hs.step tr k e he)
    (fun _ e hs he => hs.overflow tr k e he) h es

end Host

end Ntprof.Bpf
