import Ntprof.Bpf.HostTcp

/-!
# The NVMe/RDMA host hooks (`bpf/nvme_rdma_host.bpf.c`)

A request completes when both its send completion and its response have been seen, or when a local
invalidation finishes; each of these handlers sets the receive context.
-/

namespace Ntprof.Bpf

/-- `rq_of_sqe`. -/
def rqOfSqe (k : Layout) (qe : U64) : U64 := rqFromPdu k (qe - k.sqeOffset)

/-- `on_posted`. -/
def onPosted (k : Layout) (f : Filter) (s : HostState) (env : HookEnv) (qe : U64) (ret : BitVec 32) :
    HostState :=
  if ret ≠ 0 ∨ s.idle f then s
  else
    let s := if f.trackQueues then s.uncount (rqOfSqe k qe) cntUnsent false else s
    s.stampRec (rqOfSqe k qe) .cmdSent env.now

/-- `ntp_hr_post_kr`. -/
def ntpHrPostKr (k : Layout) (f : Filter) (s : HostState) (env : HookEnv) (ret : BitVec 32) : HostState :=
  match ntpCtxGet s.postCtx env with
  | none => s
  | some c => onPosted k f { s with postCtx := ctxClear s.postCtx env } env c.qe ret

/-- `on_send_done`. -/
def rdmaOnSendDone (k : Layout) (f : Filter) (s : HostState) (env : HookEnv) (wrCqe qpContext : U64) :
    HostState :=
  if s.idle f then s
  else
    let s := s.stampRec (rqOfSqe k wrCqe) .sendDone env.now
    { s with rxCtx := hostRxEnter s.rxCtx env qpContext 0 0 0 }

/-- `on_recv_done`; `cid` is that of the response, if it could be read. -/
def rdmaOnRecvDone (f : Filter) (s : HostState) (env : HookEnv) (qpContext : U64) (cid : Option U16) :
    HostState :=
  if s.idle f then s
  else
    let s := match cid.bind (s.rqByCid qpContext) with
      | none => s
      | some rq => s.stampRec rq .rspArr env.now
    { s with rxCtx := hostRxEnter s.rxCtx env qpContext 0 0 0 }

/-- `on_inv_done`. -/
def onInvDone (f : Filter) (s : HostState) (env : HookEnv) (qpContext : U64) : HostState :=
  if s.idle f then s else { s with rxCtx := hostRxEnter s.rxCtx env qpContext 0 0 0 }

/-- What makes an NVMe/RDMA host hook run; `rxExit` is the exit of any of the three handlers. -/
inductive HostRdmaEvent where
  | queueRq (rq : KAddr) (driverData : U64)
  | postFx (qe : U64) (ret : BitVec 32)
  | postKp (qe : U64)
  | postKr (ret : BitVec 32)
  | sendDone (wrCqe qpContext : U64)
  | recvDone (qpContext : U64) (cid : Option U16)
  | invDone (qpContext : U64)
  | rxExit
  | complete (rq : KAddr)

/-- The hook of an event. -/
def HostRdmaEvent.run (k : Layout) (f : Filter) (s : HostState) (env : HookEnv) :
    HostRdmaEvent → HostState
  | .queueRq rq driverData => hostQueueRq f s env rq driverData
  | .postFx qe ret => onPosted k f s env qe ret
  | .postKp qe => { s with postCtx := ctxPut s.postCtx env { tid := env.tid, qe := qe } }
  | .postKr ret => ntpHrPostKr k f s env ret
  | .sendDone wrCqe qpContext => rdmaOnSendDone k f s env wrCqe qpContext
  | .recvDone qpContext cid => rdmaOnRecvDone f s env qpContext cid
  | .invDone qpContext => onInvDone f s env qpContext
  | .rxExit => { s with rxCtx := hostRxExit s.rxCtx env }
  | .complete rq => (hostComplete f s env rq).1

/-! ## The host object -/

/-- What happens at a host: an event of its transport, or of every transport, or a write of `ntp_armed`
by user space. -/
inductive HostEvent where
  | arm (on : Bool)
  | setupCmd (env : HookEnv) (a : SetupArgs)
  | nvmeDone (env : HookEnv) (rq : KAddr)
  | blkDone (env : HookEnv) (rq : KAddr)
  | tcp (env : HookEnv) (e : HostTcpEvent)
  | rdma (env : HookEnv) (e : HostRdmaEvent)

/-- One event at the host object of transport `tr`; it has no hooks on the other transport. -/
def hostStep (tr : Transport) (k : Layout) (f : Filter) (s : HostState) : HostEvent → HostState
  | .arm on => { s with armed := on }
  | .setupCmd env a => ntpHSetupCmd tr f s env a
  | .nvmeDone env rq => ntpHNvmeDone s env rq
  | .blkDone env rq => ntpHBlkDone tr s env rq
  | .tcp env e => if tr = .tcp then e.run k f s env else s
  | .rdma env e => if tr = .rdma then e.run k f s env else s

/-- A run of a host object. -/
def hostRun (tr : Transport) (k : Layout) (f : Filter) (s : HostState) (es : List HostEvent) :
    HostState :=
  es.foldl (hostStep tr k f) s

end Ntprof.Bpf
