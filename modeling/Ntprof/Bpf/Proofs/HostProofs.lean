import Ntprof.Bpf.HostRdma
import Ntprof.Lib.SlotTable

/-!
# What a host hook does to the records

A transport hook may write to several slots (a copy of data ends the data phase of the read before it),
but it starts and ends no record: `nvme_setup_cmd` starts them and `block_rq_complete` ends them.
-/

namespace Ntprof.Bpf

open SlotTable

namespace HostState

/-- The request that owns a slot; 0 if it is free. -/
def owner (s : HostState) (i : Slot) : U64 := (s.reqs i).rq

/-- The counters of the records. -/
def ledger (s : HostState) : Ledger U64 :=
  ⟨s.inflight, s.counters .hostSampled, s.counters .hostEmitted, s.counters .rbDrops, s.counters .stale⟩

end HostState

/-! ## Effects -/

/-- No record started or ended; each is still that of the same command. -/
structure HostTouched (s s' : HostState) : Prop where
  rq : ∀ i, (s'.reqs i).rq = (s.reqs i).rq
  id : ∀ i, (s'.reqs i).record.id = (s.reqs i).record.id
  ledger : s'.ledger = s.ledger
  events : s'.events = s.events

/-- The record of `rq` was open and is over. It came out as `r`, unless the ring buffer was full. -/
structure HostFinished (rq : U64) (full : Bool) (r : HostRec) (s s' : HostState) : Prop where
  isOpen : s.owner (ntpSlot rq) = rq
  freed : s'.owner (ntpSlot rq) = 0
  other : ∀ i, i ≠ ntpSlot rq → s'.reqs i = s.reqs i
  ledger : s'.ledger = s.ledger.finish full
  events : s'.events = if full then s.events else s.events ++ [r]

/-- A record `r` of `rq` started. -/
structure HostStored (rq : U64) (r : HostRec) (s s' : HostState) : Prop where
  own : (s'.reqs (ntpSlot rq)).rq = rq
  record : (s'.reqs (ntpSlot rq)).record = r
  other : ∀ i, i ≠ ntpSlot rq → s'.reqs i = s.reqs i
  ledger : s'.ledger = s.ledger.start (s.owner (ntpSlot rq) ≠ 0)
  events : s'.events = s.events

section Effects

variable {s s₁ s₂ s' : HostState}

theorem HostTouched.refl (s : HostState) : HostTouched s s := ⟨fun _ => rfl, fun _ => rfl, rfl, rfl⟩

theorem HostTouched.trans (h : HostTouched s s₁) (h' : HostTouched s₁ s₂) : HostTouched s s₂ where
  rq i := (h'.rq i).trans (h.rq i)
  id i := (h'.id i).trans (h.id i)
  ledger := h'.ledger.trans h.ledger
  events := h'.events.trans h.events

theorem HostTouched.owner (h : HostTouched s s') : s'.owner = s.owner := funext h.rq

/-- The table of records, the counters and the ring buffer are as before. -/
theorem HostTouched.of_eq (hr : s'.reqs = s.reqs) (hl : s'.ledger = s.ledger)
    (he : s'.events = s.events) : HostTouched s s' :=
  ⟨fun i => by rw [hr], fun i => by rw [hr], hl, he⟩

end Effects

/-! ## The pieces that hooks are made of -/

section Pieces

variable {s : HostState} {rq : U64} {r r' : HostRec} {e e' : HostEntry}

theorem HostState.hostEntry_eq_some :
    s.hostEntry rq = some e ↔ (s.reqs (ntpSlot rq)).rq = rq ∧ s.reqs (ntpSlot rq) = e := by
  unfold HostState.hostEntry
  split <;> simp_all

theorem HostState.hostRec_eq_some :
    s.hostRec rq = some r ↔ (s.reqs (ntpSlot rq)).rq = rq ∧ (s.reqs (ntpSlot rq)).record = r := by
  unfold HostState.hostRec HostState.hostEntry
  split <;> simp_all

theorem HostState.setEntry_self (s : HostState) (rq : U64) (e : HostEntry) :
    (s.setEntry rq e).reqs (ntpSlot rq) = e :=
  Function.update_self ..

theorem HostState.setEntry_of_ne (s : HostState) {rq : U64} (e : HostEntry) {i : Slot}
    (hi : i ≠ ntpSlot rq) : (s.setEntry rq e).reqs i = s.reqs i :=
  Function.update_of_ne hi ..

theorem hostTouched_setRec (hid : r'.id = (s.reqs (ntpSlot rq)).record.id) :
    HostTouched s (s.setRec rq r') := by
  refine ⟨fun i => ?_, fun i => ?_, rfl, rfl⟩
  · by_cases hi : i = ntpSlot rq
    · subst hi
      simp [HostState.setRec, HostState.setEntry]
    · simp [HostState.setRec, HostState.setEntry, hi]
  · by_cases hi : i = ntpSlot rq
    · subst hi
      simp [HostState.setRec, HostState.setEntry, hid]
    · simp [HostState.setRec, HostState.setEntry, hi]

theorem hostTouched_of_hostRec (hr : s.hostRec rq = some r) (hid : r'.id = r.id) :
    HostTouched s (s.setRec rq r') :=
  hostTouched_setRec (by rw [hid, (HostState.hostRec_eq_some.mp hr).2])

@[simp]
theorem host_stamp_id (r : HostRec) (i : HostTs) (t : U64) : (r.stamp i t).id = r.id := rfl

@[simp]
theorem host_stampOnce_id (r : HostRec) (i : HostTs) (t : U64) : (r.stampOnce i t).id = r.id := by
  unfold HostRec.stampOnce
  split <;> simp

@[simp]
theorem host_orFlags_id (r : HostRec) (bits : U16) : (r.orFlags bits).id = r.id := rfl

@[simp]
theorem hostDataDone_id (r : HostRec) (c : HostRx) (now : U64) : (hostDataDone r c now).id = r.id := by
  unfold hostDataDone
  split <;> simp

theorem hostTouched_stampRec (s : HostState) (rq : U64) (i : HostTs) (t : U64) :
    HostTouched s (s.stampRec rq i t) := by
  unfold HostState.stampRec
  split
  · exact .refl s
  · rename_i r hr
    exact hostTouched_of_hostRec hr (by simp)

theorem hostTouched_uncount (s : HostState) (rq : U64) (bits : U32) (forget : Bool) :
    HostTouched s (s.uncount rq bits forget) := by
  unfold HostState.uncount
  split
  · exact .refl s
  · exact .of_eq rfl rfl rfl

/-- A command leaves the queue counts if they are kept. -/
theorem hostTouched_if_uncount (b : Bool) (s : HostState) (rq : U64) (bits : U32) (forget : Bool) :
    HostTouched s (if b then s.uncount rq bits forget else s) := by
  split
  · exact hostTouched_uncount ..
  · exact .refl s

end Pieces

/-! ## Hooks of every transport -/

section Hooks

variable {tr : Transport} {k : Layout} {f : Filter} {s : HostState} {env : HookEnv}

theorem hostTouched_countRequest (rq driverData : U64) :
    HostTouched s (countRequest f s rq driverData).1 := by
  unfold countRequest
  split
  · dsimp only
    split
    · exact .of_eq rfl rfl rfl
    · split <;> exact .of_eq rfl rfl rfl
  · exact .refl s

theorem hostTouched_hostQueueRq (rq : KAddr) (driverData : U64) :
    HostTouched s (hostQueueRq f s env rq driverData) := by
  unfold hostQueueRq
  split
  · exact .refl s
  · exact (hostTouched_countRequest rq driverData).trans (.of_eq rfl rfl rfl)

theorem completeRec_id (r : HostRec) (c : HostRx) (rq now : U64) :
    (completeRec r c rq now).id = r.id := by
  unfold completeRec
  dsimp only
  split <;> split <;> simp

theorem hostTouched_hostComplete (f : Filter) (s : HostState) (env : HookEnv) (rq : U64) :
    HostTouched s (hostComplete f s env rq).1 := by
  unfold hostComplete
  split
  · exact .refl s
  · split
    · exact .refl s
    · rename_i c _
      have hu := hostTouched_if_uncount f.trackQueues s rq (cntUnsent ||| cntInflight) true
      dsimp only
      split
      · exact hu
      · rename_i r hr
        have hs := hu.trans (hostTouched_of_hostRec hr (completeRec_id r c rq env.now))
        dsimp only
        split
        · exact hs.trans (.of_eq rfl rfl rfl)
        · exact hs

theorem hostTouched_ntpHNvmeDone (rq : KAddr) : HostTouched s (ntpHNvmeDone s env rq) := by
  unfold ntpHNvmeDone
  split
  · exact .refl s
  · exact hostTouched_stampRec ..

/-! ## Hooks of NVMe/TCP -/

theorem hostTouched_tcpOnSendDone (req : U64) (ret : BitVec 32) (cmdPdu moreToSend : Bool) :
    HostTouched s (tcpOnSendDone k f s env req ret cmdPdu moreToSend) := by
  unfold tcpOnSendDone
  split
  · exact .refl s
  · have hu := hostTouched_if_uncount (cmdPdu && f.trackQueues) s (rqFromPdu k req) cntUnsent false
    dsimp only
    split
    · exact hu
    · split
      · exact hu
      · rename_i r hr
        split
        · exact hu.trans (hostTouched_of_hostRec hr rfl)
        · split
          · exact hu.trans (hostTouched_of_hostRec hr rfl)
          · exact hu

theorem hostTouched_sendExit (ret : BitVec 32) (cmdPdu moreToSend : Bool) :
    HostTouched s (sendExit k f s env ret cmdPdu moreToSend) := by
  unfold sendExit
  split
  · exact .refl s
  · have hc : HostTouched s { s with sendCtx := sendLeave s.sendCtx env } := .of_eq rfl rfl rfl
    exact hc.trans (hostTouched_tcpOnSendDone ..)

theorem hostTouched_onSendH2c (s : HostState) (req : U64) : HostTouched s (onSendH2c k s env req) := by
  unfold onSendH2c
  split
  · exact .refl s
  · split
    · exact .refl s
    · rename_i r hr
      split
      · exact hostTouched_of_hostRec hr (by simp)
      · exact .refl s

theorem hostTouched_trySendEnter (queue : U64) (request : Option QueueRequest) :
    HostTouched s (trySendEnter k f s env queue request) := by
  unfold trySendEnter
  split
  · exact .refl s
  · have hc : HostTouched s { s with
        tsendCtx := ctxPut s.tsendCtx env (tsendStart env queue request) } := .of_eq rfl rfl rfl
    dsimp only
    split
    · exact hc
    · exact hc.trans (hostTouched_onSendH2c ..)

theorem hostTouched_onSockSend (userData : U64) (request : Option QueueRequest) :
    HostTouched s (onSockSend k f s env userData request) := by
  unfold onSockSend
  split
  · exact .refl s
  · split
    · exact .refl s
    · rename_i c _
      split
      · exact .refl s
      · split
        · exact .refl s
        · rename_i q
          have hc : HostTouched s { s with tsendCtx := ctxPut s.tsendCtx env (c.found q) } :=
            .of_eq rfl rfl rfl
          exact hc.trans (hostTouched_onSendH2c ..)

theorem hostTouched_trySendExit (ret : BitVec 32) (sent moreToSend : Bool) :
    HostTouched s (trySendExit k f s env ret sent moreToSend) := by
  unfold trySendExit
  split
  · exact .refl s
  · rename_i c _
    have hc : HostTouched s { s with tsendCtx := trySendLeave s.tsendCtx env } := .of_eq rfl rfl rfl
    dsimp only
    split
    · exact hc
    · exact hc.trans ((hostTouched_if_uncount ..).trans (hostTouched_tcpOnSendDone ..))

theorem hostTouched_onRecvSkb (skb userData : U64) (tstamp : S64) :
    HostTouched s (onRecvSkb f s env skb userData tstamp) := by
  unfold onRecvSkb
  split
  · exact .refl s
  · exact .of_eq rfl rfl rfl

theorem hostTouched_recvSkbData (c : HostRx) : HostTouched s (recvSkbData s env c) := by
  unfold recvSkbData
  split
  · exact .refl s
  · split
    · exact .refl s
    · rename_i r hr
      exact hostTouched_of_hostRec hr (by simp)

theorem hostTouched_onRecvSkbExit : HostTouched s (onRecvSkbExit s env) := by
  unfold onRecvSkbExit
  split
  · exact .refl s
  · rename_i c _
    exact (hostTouched_recvSkbData c).trans (.of_eq rfl rfl rfl)

theorem hostTouched_switchRead (s : HostState) (env : HookEnv) (c : HostRx) : HostTouched s (switchRead s env c) := by
  unfold switchRead
  split
  · split
    · exact .refl s
    · rename_i r hr
      exact hostTouched_of_hostRec hr (by simp)
  · exact .refl s

theorem switchRead_rxCtx (s : HostState) (env : HookEnv) (c : HostRx) :
    (switchRead s env c).rxCtx = s.rxCtx := by
  unfold switchRead
  split
  · split <;> rfl
  · rfl

theorem firstData_id (r : HostRec) (c : HostRx) (now : U64) : (firstData r c now).id = r.id := by
  unfold firstData
  split <;> simp

theorem hostTouched_copyData (c : HostRx) {rq : U64} {e : HostEntry} (he : s.hostEntry rq = some e) :
    HostTouched s (copyData s env c rq e) := by
  unfold copyData
  have hs : HostTouched s (s.setRec rq (e.record.stamp .c2hLastArr c.arrival)) := by
    obtain ⟨_, rfl⟩ := HostState.hostEntry_eq_some.mp he
    exact hostTouched_setRec rfl
  dsimp only
  split
  · exact hs
  · have hw := hs.trans (hostTouched_switchRead _ env c)
    split
    · exact hw
    · rename_i r hr
      exact hw.trans ((hostTouched_of_hostRec hr (firstData_id r c env.now)).trans (.of_eq rfl rfl rfl))

theorem hostTouched_hostOnCopy (skb : U64) (pdu : Option U16) :
    HostTouched s (hostOnCopy f s env skb pdu) := by
  unfold hostOnCopy
  split
  · exact .refl s
  · split
    · exact .refl s
    · split
      · exact .refl s
      · split
        · exact .refl s
        · split
          · exact .refl s
          · split
            · exact .refl s
            · rename_i e he
              exact hostTouched_copyData _ he

theorem hostTouched_onR2t (req : U64) : HostTouched s (onR2t k s env req) := by
  unfold onR2t
  split
  · exact .refl s
  · split
    · exact .refl s
    · rename_i r hr
      split <;> exact hostTouched_of_hostRec hr rfl

theorem hostTouched_onComplete (rq : KAddr) (c2hData : Bool) :
    HostTouched s (onComplete f s env rq c2hData) := by
  have hc := hostTouched_hostComplete f s env rq
  unfold onComplete
  split
  · rename_i s₁ hs₁
    rw [hs₁] at hc
    exact hc
  · rename_i s₁ hs₁
    rw [hs₁] at hc
    split
    · exact hc
    · rename_i r hr
      split
      · exact hc
      · split
        · exact hc.trans (hostTouched_of_hostRec hr rfl)
        · exact hc

theorem hostTouched_tcp (e : HostTcpEvent) : HostTouched s (e.run k f s env) := by
  cases e with
  | queueRq rq driverData => exact hostTouched_hostQueueRq rq driverData
  | sendFx req ret cmdPdu moreToSend => exact hostTouched_tcpOnSendDone ..
  | sendKp req => exact .of_eq rfl rfl rfl
  | sendKr ret cmdPdu moreToSend => exact hostTouched_sendExit ..
  | sendH2c req => exact hostTouched_onSendH2c ..
  | trySend queue request => exact hostTouched_trySendEnter ..
  | sockSend userData request => exact hostTouched_onSockSend ..
  | trySendDone ret sent moreToSend => exact hostTouched_trySendExit ..
  | recvSkb skb userData tstamp => exact hostTouched_onRecvSkb ..
  | recvSkbExit => exact hostTouched_onRecvSkbExit
  | copy skb pdu => exact hostTouched_hostOnCopy ..
  | r2t req => exact hostTouched_onR2t req
  | complete rq c2hData => exact hostTouched_onComplete ..

/-! ## Hooks of NVMe/RDMA -/

theorem hostTouched_onPosted (qe : U64) (ret : BitVec 32) :
    HostTouched s (onPosted k f s env qe ret) := by
  unfold onPosted
  split
  · exact .refl s
  · exact (hostTouched_if_uncount f.trackQueues ..).trans (hostTouched_stampRec ..)

theorem hostTouched_ntpHrPostKr (ret : BitVec 32) : HostTouched s (ntpHrPostKr k f s env ret) := by
  unfold ntpHrPostKr
  split
  · exact .refl s
  · have hc : HostTouched s { s with postCtx := ctxClear s.postCtx env } := .of_eq rfl rfl rfl
    exact hc.trans (hostTouched_onPosted ..)

theorem hostTouched_rdmaOnSendDone (wrCqe qpContext : U64) :
    HostTouched s (rdmaOnSendDone k f s env wrCqe qpContext) := by
  unfold rdmaOnSendDone
  split
  · exact .refl s
  · exact (hostTouched_stampRec ..).trans (.of_eq rfl rfl rfl)

theorem hostTouched_rdmaOnRecvDone (qpContext : U64) (cid : Option U16) :
    HostTouched s (rdmaOnRecvDone f s env qpContext cid) := by
  unfold rdmaOnRecvDone
  split
  · exact .refl s
  · dsimp only
    split
    · exact .of_eq rfl rfl rfl
    · exact (hostTouched_stampRec ..).trans (.of_eq rfl rfl rfl)

theorem hostTouched_onInvDone (qpContext : U64) : HostTouched s (onInvDone f s env qpContext) := by
  unfold onInvDone
  split
  · exact .refl s
  · exact .of_eq rfl rfl rfl

theorem hostTouched_rdma (e : HostRdmaEvent) : HostTouched s (e.run k f s env) := by
  cases e with
  | queueRq rq driverData => exact hostTouched_hostQueueRq rq driverData
  | postFx qe ret => exact hostTouched_onPosted ..
  | postKp qe => exact .of_eq rfl rfl rfl
  | postKr ret => exact hostTouched_ntpHrPostKr ret
  | sendDone wrCqe qpContext => exact hostTouched_rdmaOnSendDone ..
  | recvDone qpContext cid => exact hostTouched_rdmaOnRecvDone ..
  | invDone qpContext => exact hostTouched_onInvDone qpContext
  | rxExit => exact .of_eq rfl rfl rfl
  | complete rq => exact hostTouched_hostComplete f s env rq

end Hooks

/-! ## The start and the end of a record -/

section StartEnd

variable {tr : Transport} {f : Filter} {s : HostState} {env : HookEnv} {a : SetupArgs}

theorem hostTouched_takePending (tr : Transport) (f : Filter) (s : HostState) (env : HookEnv)
    (a : SetupArgs) : HostTouched s (takePending tr f s env a) := by
  unfold takePending
  split
  · exact .refl s
  · exact .of_eq rfl rfl rfl

theorem hostTouched_countThroughput (s : HostState) (opcode : U8) (bytes : U32) :
    HostTouched s (countThroughput s opcode bytes) := by
  unfold countThroughput
  split
  · refine .of_eq rfl ?_ rfl
    simp [HostState.ledger, HostState.count, ntpCount]
  · refine .of_eq rfl ?_ rfl
    simp [HostState.ledger, HostState.count, ntpCount]

theorem hostStored_storeHostRec (s : HostState) (rq queue : U64) (r : HostRec) :
    HostStored rq r s (storeHostRec s rq queue r) := by
  by_cases hown : (s.reqs (ntpSlot rq)).rq = 0
  · simp only [storeHostRec, ne_eq, hown, not_true_eq_false, if_false]
    refine ⟨?_, ?_, fun i hi => ?_, ?_, rfl⟩
    · simp [HostState.count, HostState.setEntry]
    · simp [HostState.count, HostState.setEntry]
    · simp [HostState.count, HostState.setEntry, HostState.inflightAdd, hi]
    · simp [HostState.owner, hown, HostState.inflightAdd, HostState.setEntry, HostState.count,
        HostState.ledger, Ledger.start, ntpCount]
  · simp only [storeHostRec, ne_eq, hown, not_false_eq_true, if_true]
    refine ⟨?_, ?_, fun i hi => ?_, ?_, rfl⟩
    · simp [HostState.count, HostState.setEntry]
    · simp [HostState.count, HostState.setEntry]
    · simp [HostState.count, HostState.setEntry, hi]
    · simp only [HostState.owner, ne_eq, hown, not_false_eq_true, decide_true, HostState.setEntry,
        HostState.count, HostState.ledger, Ledger.start, ntpCount, if_true]
      simp

theorem effect_ntpHSetupCmd_unsampled (h : setupStores tr f s env a = false) :
    HostTouched s (ntpHSetupCmd tr f s env a) := by
  unfold ntpHSetupCmd
  split
  · exact .refl s
  · rename_i p hp
    have ht := hostTouched_takePending tr f s env a
    dsimp only
    split
    · exact ht
    · rename_i c hc
      split
      · exact ht
      · rename_i hrw
        have hs := ht.trans (hostTouched_countThroughput _ c.opcode a.dataLen)
        split
        · exact hs
        · rename_i hsam
          simp only [Bool.not_eq_true', Bool.not_eq_false] at hrw hsam
          simp [setupStores, hp, hc, hrw, hsam] at h

theorem effect_ntpHSetupCmd_sampled (h : setupStores tr f s env a = true) :
    ∃ s₁ c p, HostTouched s s₁ ∧ a.cmd = some c ∧
      HostStored a.rq (newHostRec tr f env a c p) s₁ (ntpHSetupCmd tr f s env a) := by
  simp only [setupStores, Bool.and_eq_true, Option.isSome_iff_exists, Option.any_eq_true] at h
  obtain ⟨⟨p, hp⟩, c, hc, hrw, hsam⟩ := h
  have ht := hostTouched_takePending tr f s env a
  refine ⟨_, c, p, ht.trans (hostTouched_countThroughput _ c.opcode a.dataLen), hc, ?_⟩
  simp only [ntpHSetupCmd, hp, hc, hrw, hsam, Bool.not_true, Bool.false_eq_true, if_false]
  exact hostStored_storeHostRec ..

section ForgetCid

variable (s : HostState) (queue : U64) (cid : U16) (rq : U64)

@[simp]
theorem forgetCid_reqs : (forgetCid s queue cid rq).reqs = s.reqs := by
  unfold forgetCid
  dsimp only
  split <;> rfl

@[simp]
theorem forgetCid_inflight : (forgetCid s queue cid rq).inflight = s.inflight := by
  unfold forgetCid
  dsimp only
  split <;> rfl

@[simp]
theorem forgetCid_counters : (forgetCid s queue cid rq).counters = s.counters := by
  unfold forgetCid
  dsimp only
  split <;> rfl

@[simp]
theorem forgetCid_events : (forgetCid s queue cid rq).events = s.events := by
  unfold forgetCid
  dsimp only
  split <;> rfl

end ForgetCid

theorem doneRec_id (tr : Transport) (env : HookEnv) (r : HostRec) : (doneRec tr env r).id = r.id := by
  unfold doneRec
  dsimp only
  split <;> rfl

theorem hostEmit_reqs (s : HostState) (env : HookEnv) (r : HostRec) : (hostEmit s env r).reqs = s.reqs := by
  unfold hostEmit
  split <;> rfl

theorem hostEmit_events (s : HostState) (env : HookEnv) (r : HostRec) :
    (hostEmit s env r).events = if env.rbFull then s.events else s.events ++ [r] := by
  unfold hostEmit
  split <;> rfl

theorem hostEmit_ledger (s : HostState) (env : HookEnv) (r : HostRec) :
    ((hostEmit s env r).inflightAdd (-1)).ledger = s.ledger.finish env.rbFull := by
  unfold hostEmit
  split <;> rename_i hfull <;>
    simp [hfull, HostState.ledger, HostState.inflightAdd, HostState.count, ntpCount, Ledger.finish,
      sub_eq_add_neg]

theorem effect_ntpHBlkDone (tr : Transport) (s : HostState) (env : HookEnv) (rq : U64) :
    ntpHBlkDone tr s env rq = s ∨
      HostFinished rq env.rbFull (doneRec tr env (s.reqs (ntpSlot rq)).record) s
        (ntpHBlkDone tr s env rq) := by
  by_cases h0 : s.inflight = 0
  · left
    rw [ntpHBlkDone, if_pos h0]
  cases he : s.hostEntry rq with
  | none =>
    left
    rw [ntpHBlkDone, if_neg h0, he]
  | some e =>
    right
    obtain ⟨hown, rfl⟩ := HostState.hostEntry_eq_some.mp he
    rw [ntpHBlkDone, if_neg h0, he]
    dsimp only
    refine ⟨hown, ?_, fun i hi => ?_, ?_, ?_⟩
    · rw [HostState.owner, HostState.inflightAdd, HostState.setEntry_self]
    · rw [HostState.inflightAdd, HostState.setEntry_of_ne _ _ hi, forgetCid_reqs, hostEmit_reqs]
    · rw [← hostEmit_ledger s env (doneRec tr env (s.reqs (ntpSlot rq)).record)]
      simp [HostState.ledger, HostState.setEntry, HostState.inflightAdd]
    · simp [HostState.setEntry, HostState.inflightAdd, hostEmit_events]

end StartEnd

end Ntprof.Bpf
