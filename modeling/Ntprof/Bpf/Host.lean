import Ntprof.Bpf.Target

/-!
# The initiator side of a kernel object (`bpf/host.bpf.h`)

The records of sampled requests, keyed by their `struct request`, and the hooks in the block layer and
nvme-core. The state also holds the contexts of the two transport objects; an object uses those of its
own.
-/

namespace Ntprof.Bpf

/-- Sizes and offsets of the running kernel's structures, as its BTF gives them. -/
structure Layout where
  /-- `bpf_core_type_size(struct request)` -/
  requestSize : U64
  /-- `bpf_core_field_offset(struct nvme_rdma_request, sqe)` -/
  sqeOffset : U64

/-- `struct host_entry`. -/
structure HostEntry where
  rq : U64 := 0
  queue : U64 := 0
  record : HostRec := {}

/-- `struct cid_slot`. -/
structure CidSlot where
  queue : U64 := 0
  rq : U64 := 0
  cid : U16 := 0

/-- `struct qstat`. -/
structure QStat where
  unsent : BitVec 32 := 0
  inflight : BitVec 32 := 0

/-- `CNT_UNSENT`. -/
def cntUnsent : U32 := 1

/-- `CNT_INFLIGHT`. -/
def cntInflight : U32 := 2

/-- `struct counted`. -/
structure Counted where
  queue : U64
  flags : U32

/-- `struct pending`. -/
structure Pending where
  tid : U64 := 0
  rq : U64 := 0
  queue : U64 := 0
  ts : U64 := 0
  qUnsent : U16 := 0
  qInflight : U16 := 0

instance : Tagged Pending := ⟨Pending.tid, fun c t => { c with tid := t }, fun _ _ => rfl⟩

/-- `struct host_rx`. -/
structure HostRx where
  tid : U64 := 0
  queue : U64 := 0
  skb : U64 := 0
  arrival : U64 := 0
  enter : U64 := 0
  dataRq : U64 := 0
  busyFrom : U64 := 0

instance : Tagged HostRx := ⟨HostRx.tid, fun c t => { c with tid := t }, fun _ _ => rfl⟩

/-- `struct send_ctx` (`bpf/nvme_tcp_host.bpf.c`). -/
structure SendCtx where
  tid : U64 := 0
  req : U64 := 0

instance : Tagged SendCtx := ⟨SendCtx.tid, fun c t => { c with tid := t }, fun _ _ => rfl⟩

/-- `struct tsend_ctx` (`bpf/nvme_tcp_host.bpf.c`). -/
structure TsendCtx where
  tid : U64 := 0
  queue : U64 := 0
  req : U64 := 0
  cmdPdu : Bool := false

instance : Tagged TsendCtx := ⟨TsendCtx.tid, fun c t => { c with tid := t }, fun _ _ => rfl⟩

/-- `struct post_ctx` (`bpf/nvme_rdma_host.bpf.c`). -/
structure PostCtx where
  tid : U64 := 0
  qe : U64 := 0

instance : Tagged PostCtx := ⟨PostCtx.tid, fun c t => { c with tid := t }, fun _ _ => rfl⟩

/-- The state of a host object: its variables and maps, and what it put on the ring buffer. -/
structure HostState where
  armed : Bool := false
  inflight : S64 := 0
  reqs : Slot → HostEntry := fun _ => {}
  cidIdx : Slot → CidSlot := fun _ => {}
  counters : Counters := fun _ => 0
  qstats : BpfMap U64 QStat := { maxEntries := 4096 }
  counted : BpfMap U64 Counted := { maxEntries := 65536 }
  pend : Nat → Pending := fun _ => {}
  rxCtx : Nat → HostRx := fun _ => {}
  sendCtx : Nat → SendCtx := fun _ => {}
  tsendCtx : Nat → TsendCtx := fun _ => {}
  postCtx : Nat → PostCtx := fun _ => {}
  events : List HostRec := []

/-- `rq_from_pdu`. -/
def rqFromPdu (k : Layout) (pdu : U64) : U64 := pdu - k.requestSize

/-- `cid_slot_of`. -/
def cidSlotOf (queue : U64) (cid : U16) : Slot := ntpSlot (queue ^^^ (cid.setWidth 64 <<< 6))

namespace HostState

/-- `ntp_count`. -/
def count (s : HostState) (i : Counter) (delta : U64) : HostState :=
  { s with counters := ntpCount s.counters i delta }

/-- `ntp_inflight_add`. -/
def inflightAdd (s : HostState) (d : S64) : HostState := { s with inflight := s.inflight + d }

/-- `ntp_idle`. -/
def idle (s : HostState) (f : Filter) : Bool := s.inflight == 0 && !f.trackQueues

/-- `host_entry`: the entry of `rq`. -/
def hostEntry (s : HostState) (rq : U64) : Option HostEntry :=
  if (s.reqs (ntpSlot rq)).rq = rq then some (s.reqs (ntpSlot rq)) else none

/-- `host_rec`: the record of `rq`. -/
def hostRec (s : HostState) (rq : U64) : Option HostRec := (s.hostEntry rq).map HostEntry.record

/-- Write the slot of `rq`. -/
def setEntry (s : HostState) (rq : U64) (e : HostEntry) : HostState :=
  { s with reqs := Function.update s.reqs (ntpSlot rq) e }

/-- Write the record in the slot of `rq`. -/
def setRec (s : HostState) (rq : U64) (r : HostRec) : HostState :=
  s.setEntry rq { s.reqs (ntpSlot rq) with record := r }

/-- Stamp the record of `rq` once, if there is one. -/
def stampRec (s : HostState) (rq : U64) (i : HostTs) (t : U64) : HostState :=
  match s.hostRec rq with
  | none => s
  | some r => s.setRec rq (r.stampOnce i t)

/-- The lookup in `cid_idx`: the request of a queue and a cid. -/
def rqByCid (s : HostState) (queue : U64) (cid : U16) : Option U64 :=
  let c := s.cidIdx (cidSlotOf queue cid)
  if c.queue = queue ∧ c.cid = cid then some c.rq else none

/-! ## Queue counts -/

/-- `get_qstat`, for its effect on the map. -/
def getQstat (s : HostState) (queue : U64) : HostState :=
  { s with qstats := s.qstats.updateNoExist queue {} }

/-- `uncount`. -/
def uncount (s : HostState) (rq : U64) (bits : U32) (forget : Bool) : HostState :=
  match s.counted.lookup rq with
  | none => s
  | some c =>
    let drop := c.flags &&& bits
    let counted := s.counted.modify rq fun c => { c with flags := c.flags &&& ~~~bits }
    let qstats := s.qstats.modify c.queue fun q =>
      { unsent := if drop &&& cntUnsent ≠ 0 then q.unsent - 1 else q.unsent
        inflight := if drop &&& cntInflight ≠ 0 then q.inflight - 1 else q.inflight }
    { s with qstats := qstats
             counted := if forget then counted.delete rq else counted }

end HostState

/-! ## The receive context -/

/-- `host_rx_enter`. -/
def hostRxEnter (slots : Nat → HostRx) (env : HookEnv) (queue skb arrival now : U64) : Nat → HostRx :=
  ctxPut slots env
    { tid := env.tid, queue := queue, skb := skb, arrival := arrival, enter := now, dataRq := 0
      busyFrom := 0 }

/-- `host_rx_exit`. -/
def hostRxExit (slots : Nat → HostRx) (env : HookEnv) : Nat → HostRx := ctxClear slots env

/-- `host_data_done`, for its effect on the record. -/
def hostDataDone (r : HostRec) (c : HostRx) (now : U64) : HostRec :=
  if c.busyFrom ≠ 0 ∧ c.busyFrom ≤ now then
    { r.stamp .c2hDone now with
      c2hBusyNs := r.c2hBusyNs + (now - c.busyFrom)
      c2hSkbs := r.c2hSkbs + 1 }
  else r

/-- `host_data_done`, for its effect on the context. -/
def HostRx.dataDone (c : HostRx) : HostRx := { c with dataRq := 0, busyFrom := 0 }

/-! ## Submission -/

/-- The exact queue counts in `host_queue_rq`; also returns the two counts before the request. -/
def countRequest (f : Filter) (s : HostState) (rq driverData : U64) : HostState × U16 × U16 :=
  if f.trackQueues then
    let s := s.getQstat driverData
    match s.qstats.lookup driverData with
    | none => (s, 0, 0)
    | some q =>
      if (s.counted.lookup rq).isSome then (s, 0, 0)
      else
        ({ s with counted := s.counted.updateAny rq ⟨driverData, cntUnsent ||| cntInflight⟩
                  qstats := s.qstats.modify driverData fun q =>
                    { unsent := q.unsent + 1, inflight := q.inflight + 1 } },
          ntpClampU16 q.unsent, ntpClampU16 q.inflight)
  else (s, 0, 0)

/-- `host_queue_rq`; `driverData` is the hardware context's. -/
def hostQueueRq (f : Filter) (s : HostState) (env : HookEnv) (rq : KAddr) (driverData : U64) : HostState :=
  if !s.armed then s
  else
    let (s, qUnsent, qInflight) := countRequest f s rq driverData
    let queue := if f.trackQueues then driverData else 0
    { s with
      pend := ctxPut s.pend env { tid := env.tid, rq := rq, queue := queue, ts := env.now
                                  qUnsent := qUnsent, qInflight := qInflight } }

/-- What `nvme_setup_cmd` reads: the request and its command, its queue over TCP (0 unless the queue's
socket points back to it), its controller and its hardware context. -/
structure SetupArgs where
  rq : KAddr
  tcpQueue : U64 := 0
  cmd : Option NvmeCmd
  dataLen : U32 := 0
  inst : U32 := 0
  cntlid : U16 := 0
  driverData : U64 := 0
  queueNum : U32 := 0
  disk : Vector U8 ntpDiskNameLen := Vector.replicate _ 0
  startTimeNs : U64 := 0

/-- `host_queue_of`, of either transport. -/
def hostQueueOf (tr : Transport) (a : SetupArgs) : U64 :=
  match tr with
  | .tcp => a.tcpQueue
  | .rdma => 0

/-- `NTP_HOST_HOOKS_QUEUE_RQ`. -/
def ntpHostHooksQueueRq : Transport → Bool
  | .tcp => false
  | .rdma => true

/-- In `ntp_h_setup_cmd`: the context of `->queue_rq()`, if it is this request's. -/
def pendingOf (tr : Transport) (f : Filter) (s : HostState) (env : HookEnv) (a : SetupArgs) :
    Option Pending :=
  if ntpHostHooksQueueRq tr || f.trackQueues then
    (ntpCtxGet s.pend env).filter fun p => p.rq = a.rq
  else none

/-- In `ntp_h_setup_cmd`: the request is this object's, and what its `->queue_rq()` left (a queue or a
time of 0 is filled in later); `none` where the hook returns. -/
def setupSource (tr : Transport) (f : Filter) (s : HostState) (env : HookEnv) (a : SetupArgs) :
    Option Pending :=
  match pendingOf tr f s env a with
  | some p => some p
  | none =>
    if !s.armed then none
    else if hostQueueOf tr a = 0 then none
    else some { queue := hostQueueOf tr a }

/-- In `ntp_h_setup_cmd`: the context of `->queue_rq()` is used up. -/
def takePending (tr : Transport) (f : Filter) (s : HostState) (env : HookEnv) (a : SetupArgs) :
    HostState :=
  match pendingOf tr f s env a with
  | none => s
  | some p => { s with pend := ctxPut s.pend env { p with tid := 0 } }

/-- The throughput counters in `ntp_h_setup_cmd`. -/
def countThroughput (s : HostState) (opcode : U8) (bytes : U32) : HostState :=
  if opcode = ntpNvmeCmdWrite then
    (s.count .hostWriteIos 1).count .hostWriteBytes (bytes.setWidth 64)
  else (s.count .hostReadIos 1).count .hostReadBytes (bytes.setWidth 64)

/-- In `ntp_h_setup_cmd`: the controller is one that the filter names. -/
def ctrlMatches (f : Filter) (inst : U32) : Bool :=
  !f.ctrlFilter ||
    (!decide (255 < inst) &&
      (f.ctrlMask[((inst >>> 6) &&& 3).toNat]?.getD 0 &&& (1#64 <<< (inst &&& 63).toNat)) != 0)

/-- In `ntp_h_setup_cmd`: the tests between the key and the slot. -/
def setupSampled (f : Filter) (a : SetupArgs) (c : NvmeCmd) : Bool :=
  ntpTypeMatches f c.opcode && ntpSampled f c.commandId c.slba c.length && ntpSizeMatches f a.dataLen &&
    ctrlMatches f a.inst && (f.nsid == 0 || c.nsid == f.nsid)

/-- The id of the command of an `nvme_setup_cmd`. -/
def SetupArgs.id (a : SetupArgs) (c : NvmeCmd) : CmdId :=
  { ntpReadCmd c with cntlid := a.cntlid, qid := (a.queueNum + 1).setWidth 16 }

/-- The record `ntp_h_setup_cmd` starts. -/
def newHostRec (tr : Transport) (f : Filter) (env : HookEnv) (a : SetupArgs) (c : NvmeCmd) (p : Pending) :
    HostRec :=
  { hdr := { kind := ntpRecHost, transport := tr.code
             flags := (if c.opcode = ntpNvmeCmdWrite then ntpFWrite else 0) |||
               (if f.trackQueues then ntpFQueues else 0) }
    id := a.id c
    bytes := a.dataLen
    ctrlInstance := a.inst
    qUnsent := p.qUnsent
    qInflight := p.qInflight
    disk := a.disk
    ts := Function.update (Function.update (fun _ => 0) .start a.startTimeNs) .queueRq
      (if p.ts = 0 then env.now else p.ts) }

/-- In `ntp_h_setup_cmd`: the request takes its slot, and its cid the one in the index. -/
def storeHostRec (s : HostState) (rq queue : U64) (r : HostRec) : HostState :=
  let s := if (s.reqs (ntpSlot rq)).rq ≠ 0 then s.count .stale 1 else s.inflightAdd 1
  let s := s.setEntry rq { rq := rq, queue := queue, record := r }
  { s with
    cidIdx := Function.update s.cidIdx (cidSlotOf queue r.id.cid) { queue := queue, rq := rq, cid := r.id.cid }
  }.count .hostSampled 1

/-- `ntp_h_setup_cmd`. -/
def ntpHSetupCmd (tr : Transport) (f : Filter) (s : HostState) (env : HookEnv) (a : SetupArgs) :
    HostState :=
  match setupSource tr f s env a with
  | none => s
  | some p =>
    let s := takePending tr f s env a
    match a.cmd with
    | none => s
    | some c =>
      if !ntpIsRw c.opcode then s
      else
        let s := countThroughput s c.opcode a.dataLen
        if !setupSampled f a c then s
        else
          let queue := if p.queue = 0 then a.driverData else p.queue
          storeHostRec s a.rq queue (newHostRec tr f env a c p)

/-- `nvme_setup_cmd` passes every test between the key and the slot, so it starts a record. -/
def setupStores (tr : Transport) (f : Filter) (s : HostState) (env : HookEnv) (a : SetupArgs) : Bool :=
  (setupSource tr f s env a).isSome && a.cmd.any fun c => ntpIsRw c.opcode && setupSampled f a c

/-! ## Completion -/

/-- In `host_complete`: the response of `rq` was parsed under context `c`. -/
def completeRec (r : HostRec) (c : HostRx) (rq now : U64) : HostRec :=
  let r := if c.arrival ≠ 0 then r.stamp .rspArr c.arrival else r
  let r := r.stamp .rspProc now
  if c.dataRq = rq then hostDataDone r c now else r

/-- `host_complete`; also returns whether it found the record. -/
def hostComplete (f : Filter) (s : HostState) (env : HookEnv) (rq : U64) : HostState × Bool :=
  if s.idle f then (s, false)
  else
    match ntpCtxGet s.rxCtx env with
    | none => (s, false)
    | some c =>
      let s := if f.trackQueues then s.uncount rq (cntUnsent ||| cntInflight) true else s
      match s.hostRec rq with
      | none => (s, false)
      | some r =>
        let s := s.setRec rq (completeRec r c rq env.now)
        (if c.dataRq = rq then { s with rxCtx := ctxPut s.rxCtx env c.dataDone } else s, true)

/-- `ntp_h_nvme_done`. -/
def ntpHNvmeDone (s : HostState) (env : HookEnv) (rq : KAddr) : HostState :=
  if s.inflight = 0 then s else s.stampRec rq .nvmeDone env.now

/-- In `ntp_h_blk_done`: the record as it is emitted. -/
def doneRec (tr : Transport) (env : HookEnv) (r : HostRec) : HostRec :=
  let r := r.stamp .blkDone env.now
  let r := if tr = .tcp ∧ r.hdr.has ntpFWrite ∧ !r.hdr.has ntpFR2t then r.orFlags ntpFInlineData else r
  { r with hdr := { r.hdr with cpu := BitVec.ofNat 32 env.cpu } }

/-- In `ntp_h_blk_done`: the cid's slot no longer points to the request. -/
def forgetCid (s : HostState) (queue : U64) (cid : U16) (rq : U64) : HostState :=
  let i := cidSlotOf queue cid
  if (s.cidIdx i).rq = rq then
    { s with cidIdx := Function.update s.cidIdx i { s.cidIdx i with rq := 0 } }
  else s

/-- In `ntp_h_blk_done`: the record goes to the ring buffer. -/
def hostEmit (s : HostState) (env : HookEnv) (r : HostRec) : HostState :=
  if env.rbFull then s.count .rbDrops 1 else { s.count .hostEmitted 1 with events := s.events ++ [r] }

/-- `ntp_h_blk_done`. -/
def ntpHBlkDone (tr : Transport) (s : HostState) (env : HookEnv) (rq : U64) : HostState :=
  if s.inflight = 0 then s
  else
    match s.hostEntry rq with
    | none => s
    | some e =>
      let r := doneRec tr env e.record
      let s := forgetCid (hostEmit s env r) e.queue r.id.cid e.rq
      (s.setEntry rq { e with rq := 0, record := r }).inflightAdd (-1)

end Ntprof.Bpf
