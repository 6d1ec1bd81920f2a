import Ntprof.Bpf.Common

/-!
# The target side of a kernel object (`bpf/target.bpf.h`)

The records of sampled commands, keyed by the command's `struct nvmet_req`, and the hooks in nvmet-core,
the backends and the block layer. The state also holds the maps of the two transport objects; an object
uses those of its own.
-/

namespace Ntprof.Bpf

/-- `NTP_TRANSPORT`: which of the two kernel objects. -/
inductive Transport where
  | tcp
  | rdma
  deriving DecidableEq, Repr

/-- The value of `NTP_TRANSPORT`. -/
def Transport.code : Transport → U8
  | .tcp => ntpTrTcp
  | .rdma => ntpTrRdma

/-- `struct tgt_entry`. -/
structure TgtEntry where
  req : U64 := 0
  parts : U32 := 0
  record : TgtRec := {}

/-- `struct tqstat`. -/
structure TqStat where
  outstanding : BitVec 32 := 0
  respQueue : BitVec 32 := 0

/-- `CNT_OUTSTANDING`. -/
def cntOutstanding : U32 := 1

/-- `CNT_RESP_QUEUED`. -/
def cntRespQueued : U32 := 2

/-- `struct tcounted`. -/
structure TCounted where
  sq : U64
  flags : U32

/-- `struct tgt_ctx`. -/
structure TgtCtx where
  tid : U64 := 0
  queue : U64 := 0
  sk : U64 := 0
  lastSkb : U64 := 0
  arrival : U64 := 0

instance : Tagged TgtCtx := ⟨TgtCtx.tid, fun c t => { c with tid := t }, fun _ _ => rfl⟩

/-- `struct tcp_rx` (`bpf/nvme_tcp_target.bpf.c`). -/
structure TcpRx where
  tid : U64 := 0
  skb : U64 := 0
  sk : U64 := 0
  enter : U64 := 0
  offset : S64 := 0

instance : Tagged TcpRx := ⟨TcpRx.tid, fun c t => { c with tid := t }, fun _ _ => rfl⟩

/-- `struct resp_ctx` (`bpf/nvme_rdma_target.bpf.c`). -/
structure RespCtx where
  tid : U64 := 0
  req : U64 := 0

instance : Tagged RespCtx := ⟨RespCtx.tid, fun c t => { c with tid := t }, fun _ _ => rfl⟩

/-- The state of a target object: its variables and maps, and what it put on the ring buffer. -/
structure TgtState where
  armed : Bool := false
  inflight : S64 := 0
  treqs : Slot → TgtEntry := fun _ => {}
  counters : Counters := fun _ => 0
  tqstats : BpfMap U64 TqStat := { maxEntries := 4096 }
  tcounted : BpfMap U64 TCounted := { maxEntries := 65536 }
  tgtCtx : Nat → TgtCtx := fun _ => {}
  tcpRx : Nat → TcpRx := fun _ => {}
  tqueues : BpfMap U64 U64 := { maxEntries := 4096 }
  respCtx : Nat → RespCtx := fun _ => {}
  events : List TgtRec := []

namespace TgtState

/-- `ntp_count`. -/
def count (s : TgtState) (i : Counter) : TgtState := { s with counters := ntpCount s.counters i 1 }

/-- `ntp_inflight_add`. -/
def inflightAdd (s : TgtState) (d : S64) : TgtState := { s with inflight := s.inflight + d }

/-- `ntp_idle`. -/
def idle (s : TgtState) (f : Filter) : Bool := s.inflight == 0 && !f.trackQueues

/-- `tgt_entry`: the entry of `req`. -/
def tgtEntry (s : TgtState) (req : U64) : Option TgtEntry :=
  if (s.treqs (ntpSlot req)).req = req then some (s.treqs (ntpSlot req)) else none

/-- `tgt_rec`: the record of `req`. -/
def tgtRec (s : TgtState) (req : U64) : Option TgtRec := (s.tgtEntry req).map TgtEntry.record

/-- Write the slot of `req`. -/
def setEntry (s : TgtState) (req : U64) (e : TgtEntry) : TgtState :=
  { s with treqs := Function.update s.treqs (ntpSlot req) e }

/-- Write the record in the slot of `req`. -/
def setRec (s : TgtState) (req : U64) (r : TgtRec) : TgtState :=
  s.setEntry req { s.treqs (ntpSlot req) with record := r }

/-! ## Queue counts -/

/-- `get_tqstat`, for its effect on the map. -/
def getTqstat (s : TgtState) (sq : U64) : TgtState := { s with tqstats := s.tqstats.updateNoExist sq {} }

/-- `uncount`. -/
def uncount (s : TgtState) (req : U64) (bits : U32) (forget : Bool) : TgtState :=
  match s.tcounted.lookup req with
  | none => s
  | some c =>
    let drop := c.flags &&& bits
    let tcounted := s.tcounted.modify req fun c => { c with flags := c.flags &&& ~~~bits }
    let tqstats := s.tqstats.modify c.sq fun q =>
      { outstanding := if drop &&& cntOutstanding ≠ 0 then q.outstanding - 1 else q.outstanding
        respQueue := if drop &&& cntRespQueued ≠ 0 then q.respQueue - 1 else q.respQueue }
    { s with tqstats := tqstats
             tcounted := if forget then tcounted.delete req else tcounted }

/-- `count_resp_queued`. -/
def countRespQueued (s : TgtState) (req : U64) : TgtState :=
  match s.tcounted.lookup req with
  | none => s
  | some c =>
    if c.flags &&& cntRespQueued ≠ 0 then s
    else
      { s with
        tcounted := s.tcounted.modify req fun c => { c with flags := c.flags ||| cntRespQueued }
        tqstats := s.tqstats.modify c.sq fun q => { q with respQueue := q.respQueue + 1 } }

/-- `tgt_uncount`. -/
def tgtUncount (s : TgtState) (f : Filter) (req : U64) : TgtState :=
  if f.trackQueues then s.uncount req (cntOutstanding ||| cntRespQueued) true else s

/-! ## The end of a record -/

/-- `tgt_emit`: emit the record of `req`, if it has one, and free its slot. -/
def tgtEmit (s : TgtState) (env : HookEnv) (req : U64) : TgtState :=
  match s.tgtEntry req with
  | none => s
  | some e =>
    let r := { e.record with hdr := { e.record.hdr with cpu := BitVec.ofNat 32 env.cpu } }
    let s := if env.rbFull then s.count .rbDrops
      else { s.count .tgtEmitted with events := s.events ++ [r] }
    (s.setEntry req { e with req := 0, record := r }).inflightAdd (-1)

/-- `tgt_finish`. -/
def tgtFinish (s : TgtState) (f : Filter) (env : HookEnv) (req : U64) : TgtState :=
  (s.tgtUncount f req).tgtEmit env req

end TgtState

/-! ## The target context -/

/-- `tgt_ctx_enter`. -/
def tgtCtxEnter (slots : Nat → TgtCtx) (env : HookEnv) (queue sk arrival : U64) : Nat → TgtCtx :=
  ctxPut slots env { tid := env.tid, queue := queue, sk := sk, lastSkb := 0, arrival := arrival }

/-- `tgt_ctx_exit`. -/
def tgtCtxExit (slots : Nat → TgtCtx) (env : HookEnv) : Nat → TgtCtx := ctxClear slots env

/-- `tgt_arrival`; `tstamp` is that of the context's skb. -/
def tgtArrival (f : Filter) (c : TgtCtx) (tstamp : S64) (now : U64) : U64 :=
  if c.lastSkb ≠ 0 then ntpSkbArrival f tstamp now
  else if c.arrival ≠ 0 then c.arrival else now

/-! ## Command arrival -/

/-- What `nvmet_req_init` reads: the `nvmet_req`, its queue and its command, and over TCP the queue's
socket (`ownsSocket`: the socket points back to the queue) and the skb's timestamp. -/
structure ReqInitArgs where
  req : KAddr
  sq : U64
  qid : U16
  cntlid : U16
  cmd : Option NvmeCmd
  queue : U64 := 0
  sock : U64 := 0
  sk : U64 := 0
  ownsSocket : Bool := false
  tstamp : S64 := 0

/-- `remember_queue` (`bpf/nvme_tcp_target.bpf.c`). -/
def rememberQueue (s : TgtState) (env : HookEnv) (queue sock : U64) : TgtState :=
  { s with tqueues := s.tqueues.updateLru env.lruVictim queue sock }

/-- `tgt_is_ours`, of either transport. -/
def tgtIsOurs (tr : Transport) (s : TgtState) (env : HookEnv) (a : ReqInitArgs) : Bool :=
  match tr with
  | .tcp => a.ownsSocket
  | .rdma => (ntpCtxGet s.tgtCtx env).isSome

/-- The queue `tgt_is_ours` remembers over TCP when queues are counted. -/
def rememberOurs (tr : Transport) (f : Filter) (s : TgtState) (env : HookEnv) (a : ReqInitArgs) :
    TgtState :=
  if tr = .tcp ∧ f.trackQueues then rememberQueue s env a.queue a.sock else s

/-- `rx_arrival` (`bpf/nvme_tcp_target.bpf.c`). -/
def rxArrival (f : Filter) (s : TgtState) (env : HookEnv) (sk : U64) (tstamp : S64) (now : U64) : U64 :=
  match ntpCtxGet s.tcpRx env with
  | none => now
  | some r => if r.sk ≠ sk then now else ntpSkbArrival f tstamp now

/-- `tgt_sampled`, of either transport: the arrival time. -/
def tgtSampled (tr : Transport) (f : Filter) (s : TgtState) (env : HookEnv) (a : ReqInitArgs) : U64 :=
  match tr with
  | .tcp => rxArrival f s env a.sk a.tstamp env.now
  | .rdma =>
    match ntpCtxGet s.tgtCtx env with
    | none => env.now
    | some c => tgtArrival f c a.tstamp env.now

/-- The queue `tgt_sampled` remembers over TCP. -/
def rememberSampled (tr : Transport) (s : TgtState) (env : HookEnv) (a : ReqInitArgs) : TgtState :=
  if tr = .tcp then rememberQueue s env a.queue a.sock else s

/-- The exact queue counts in `ntp_t_req_init`; also returns the two counts before the command. -/
def countCommand (f : Filter) (s : TgtState) (a : ReqInitArgs) : TgtState × U16 × U16 :=
  if f.trackQueues then
    let s := s.getTqstat a.sq
    let s := s.uncount a.req (cntOutstanding ||| cntRespQueued) true
    match s.tqstats.lookup a.sq with
    | none => (s, 0, 0)
    | some q =>
      ({ s with tcounted := s.tcounted.updateAny a.req ⟨a.sq, cntOutstanding⟩
                tqstats := s.tqstats.modify a.sq fun q => { q with outstanding := q.outstanding + 1 } },
        ntpClampU16 q.outstanding, ntpClampU16 q.respQueue)
  else (s, 0, 0)

/-- In `ntp_t_req_init`: the previous command's record, if it is still open, is emitted. -/
def flushOpen (s : TgtState) (env : HookEnv) (req : U64) : TgtState :=
  if s.inflight = 0 then s
  else
    match s.tgtRec req with
    | none => s
    | some r => (s.setRec req (r.orFlags ntpFReused)).tgtEmit env req

/-- The id of the command of an `nvmet_req_init`. -/
def ReqInitArgs.id (a : ReqInitArgs) (c : NvmeCmd) : CmdId :=
  { ntpReadCmd c with cntlid := a.cntlid, qid := a.qid }

/-- The record `ntp_t_req_init` starts. -/
def newTgtRec (tr : Transport) (f : Filter) (env : HookEnv) (a : ReqInitArgs) (c : NvmeCmd)
    (qOutstanding qRespQueue : U16) (arrival : U64) : TgtRec :=
  { hdr := { kind := ntpRecTarget, transport := tr.code
             flags := (if c.opcode = ntpNvmeCmdWrite then ntpFWrite else 0) |||
               (if f.trackQueues then ntpFQueues else 0) }
    id := a.id c
    qOutstanding := qOutstanding
    qRespQueue := qRespQueue
    ts := Function.update (Function.update (fun _ => 0) .cmdArr arrival) .cmdProc env.now }

/-- In `ntp_t_req_init`: the command takes its slot. -/
def storeTgtRec (s : TgtState) (req : U64) (r : TgtRec) : TgtState :=
  let s := if (s.treqs (ntpSlot req)).req ≠ 0 then s.count .stale else s.inflightAdd 1
  (s.setEntry req { req := req, parts := 0, record := r }).count .tgtSampled

/-- `ntp_t_req_init`, past its early returns. -/
def reqInitOurs (tr : Transport) (f : Filter) (s : TgtState) (env : HookEnv) (a : ReqInitArgs) :
    TgtState :=
  let s := rememberOurs tr f s env a
  let (s, qOutstanding, qRespQueue) := countCommand f s a
  let s := s.count .tgtCmds
  let s := flushOpen s env a.req
  match a.cmd with
  | none => s
  | some c =>
    if !ntpIsRw c.opcode then s
    else if !ntpTypeMatches f c.opcode then s
    else if !ntpSampled f c.commandId c.slba c.length then s
    else
      let arrival := tgtSampled tr f s env a
      let s := rememberSampled tr s env a
      storeTgtRec s a.req (newTgtRec tr f env a c qOutstanding qRespQueue arrival)

/-- The early returns of `ntp_t_req_init` are not taken. -/
def reqInitRecognised (tr : Transport) (s : TgtState) (env : HookEnv) (a : ReqInitArgs) : Bool :=
  s.armed && a.qid != 0 && tgtIsOurs tr s env a

/-- `ntp_t_req_init`. -/
def ntpTReqInit (tr : Transport) (f : Filter) (s : TgtState) (env : HookEnv) (a : ReqInitArgs) :
    TgtState :=
  if reqInitRecognised tr s env a then reqInitOurs tr f s env a else s

/-! ## Backend -/

/-- `on_exec`. -/
def onExec (s : TgtState) (env : HookEnv) (req : U64) (transferLen : U32) : TgtState :=
  if s.inflight = 0 then s
  else
    match s.tgtRec req with
    | none => s
    | some r =>
      if r.ts .exec ≠ 0 then s
      else s.setRec req { r.stamp .exec env.now with bytes := transferLen }

/-- `rec_of_rq`, for a request whose bio's `bi_private` is `priv`. -/
def recOfRq (s : TgtState) (priv : U64) : Option TgtRec :=
  if s.inflight = 0 then none
  else if priv ≠ 0 then s.tgtRec priv else none

/-- `ntp_t_be_issue`. -/
def ntpTBeIssue (s : TgtState) (env : HookEnv) (priv : U64) : TgtState :=
  match recOfRq s priv with
  | none => s
  | some r => s.setRec priv (r.stampOnce .beIssue env.now)

/-- `ntp_t_be_done`. -/
def ntpTBeDone (s : TgtState) (env : HookEnv) (priv : U64) : TgtState :=
  match recOfRq s priv with
  | none => s
  | some r => s.setRec priv (r.stamp .beDone env.now)

/-- `ntp_t_complete`. -/
def ntpTComplete (s : TgtState) (env : HookEnv) (req : U64) : TgtState :=
  if s.inflight = 0 then s
  else
    match s.tgtRec req with
    | none => s
    | some r => s.setRec req (r.stampOnce .complete env.now)

end Ntprof.Bpf
