import Ntprof.Bpf.TargetTcp

/-!
# The NVMe/RDMA target hooks (`bpf/nvme_rdma_target.bpf.c`)

A record is emitted at the later of the return of `nvmet_rdma_queue_response` and the response's send
completion. The return hook exists twice: fexit gets the `nvmet_req` as an argument, the kretprobe takes
it from a context that the kprobe at the entry left.
-/

namespace Ntprof.Bpf

/-! ## Command arrival and write data -/

/-- `on_recv_done`. -/
def onRecvDone (s : TgtState) (env : HookEnv) (qpContext : U64) : TgtState :=
  { s with tgtCtx := tgtCtxEnter s.tgtCtx env qpContext 0 env.now }

/-- The exit of `nvmet_rdma_recv_done`. -/
def onRecvDoneExit (s : TgtState) (env : HookEnv) : TgtState :=
  { s with tgtCtx := tgtCtxExit s.tgtCtx env }

/-- `on_execute`; `inlineData` is the response's flag `NVMET_RDMA_REQ_INLINE_DATA`. -/
def onExecute (s : TgtState) (env : HookEnv) (req : KAddr) (transferLen : U32) (inlineData : Bool) :
    TgtState :=
  if s.inflight = 0 then s
  else
    match s.tgtRec req with
    | none => s
    | some r =>
      if !r.hdr.has ntpFWrite then s
      else if transferLen = 0 ∨ inlineData then s.setRec req (r.orFlags ntpFInlineData)
      else s.setRec req ((r.orFlags ntpFRdmaRead).stampOnce .r2tSent env.now)

/-- `on_read_done`. -/
def onReadDone (s : TgtState) (env : HookEnv) (req : KAddr) : TgtState :=
  if s.inflight = 0 then s
  else
    match s.tgtRec req with
    | none => s
    | some r =>
      if r.ts .dataProc ≠ 0 then s
      else s.setRec req ((r.stamp .dataArr env.now).stamp .dataProc env.now)

/-! ## Response -/

/-- `on_queue_resp`. -/
def rdmaOnQueueResp (f : Filter) (s : TgtState) (env : HookEnv) (req : KAddr) : TgtState :=
  if s.idle f then s
  else
    let s := if f.trackQueues then s.countRespQueued req else s
    s.stampRec req .rspQueued env.now

/-- `RSP_POSTED`: `nvmet_rdma_queue_response()` returned. -/
def rspPosted : U32 := 1

/-- `RSP_SEND_DONE`: the send completion was handled. -/
def rspSendDone : U32 := 2

/-- `rsp_part_done`: one end of the response was seen; emit once both were. -/
def rspPartDone (s : TgtState) (env : HookEnv) (req : U64) (part : U32) : TgtState :=
  match s.tgtEntry req with
  | none => s
  | some e =>
    let s := s.setEntry req { e with parts := e.parts ||| part }
    if e.parts ||| part = rspPosted ||| rspSendDone then s.tgtEmit env req else s

/-- In `on_queue_resp_exit`: data and response were posted at `now`. -/
def postedRec (r : TgtRec) (now : U64) : TgtRec :=
  if r.hdr.has ntpFWrite then r.stamp .rspSent now else (r.stamp .c2hSent now).stamp .rspSent now

/-- In `on_queue_resp_exit`: the record of `req`, if there is one, has its response posted. -/
def respPosted (s : TgtState) (env : HookEnv) (req : U64) : TgtState :=
  match s.tgtRec req with
  | none => s
  | some r => rspPartDone (s.setRec req (postedRec r env.now)) env req rspPosted

/-- `on_queue_resp_exit`. -/
def onQueueRespExit (f : Filter) (s : TgtState) (env : HookEnv) (req : U64) : TgtState :=
  if s.idle f then s else (respPosted s env req).tgtUncount f req

/-- `on_send_done`. -/
def onSendDone (s : TgtState) (env : HookEnv) (req : KAddr) : TgtState :=
  if s.inflight = 0 then s
  else
    match s.tgtRec req with
    | none => s
    | some r => rspPartDone (s.setRec req (r.stampOnce .sendDone env.now)) env req rspSendDone

/-- `ntp_tr_queue_resp_kp`. -/
def ntpTrQueueRespKp (f : Filter) (s : TgtState) (env : HookEnv) (req : KAddr) : TgtState :=
  rdmaOnQueueResp f { s with respCtx := ctxPut s.respCtx env { tid := env.tid, req := req } } env req

/-- `ntp_tr_queue_resp_kr`. -/
def ntpTrQueueRespKr (f : Filter) (s : TgtState) (env : HookEnv) : TgtState :=
  match ntpCtxGet s.respCtx env with
  | none => s
  | some c => onQueueRespExit f { s with respCtx := ctxPut s.respCtx env { c with tid := 0 } } env c.req

/-! ## Events -/

/-- What makes an NVMe/RDMA target hook run. The `nvmet_req` of `queueRespKr` is no argument of the hook:
it is that of the call that returns. -/
inductive TgtRdmaEvent where
  | recvDone (qpContext : U64)
  | recvDoneExit
  | execute (req : KAddr) (transferLen : U32) (inlineData : Bool)
  | readDone (req : KAddr)
  | queueRespFe (req : KAddr)
  | queueRespFx (req : KAddr)
  | queueRespKp (req : KAddr)
  | queueRespKr (own : KAddr)
  | sendDone (req : KAddr)

/-- The hook of an event. -/
def TgtRdmaEvent.run (f : Filter) (s : TgtState) (env : HookEnv) : TgtRdmaEvent → TgtState
  | .recvDone qpContext => onRecvDone s env qpContext
  | .recvDoneExit => onRecvDoneExit s env
  | .execute req transferLen inlineData => onExecute s env req transferLen inlineData
  | .readDone req => onReadDone s env req
  | .queueRespFe req => rdmaOnQueueResp f s env req
  | .queueRespFx req => onQueueRespExit f s env req
  | .queueRespKp req => ntpTrQueueRespKp f s env req
  | .queueRespKr _ => ntpTrQueueRespKr f s env
  | .sendDone req => onSendDone s env req

/-! ## The target object -/

/-- What happens at a target: an event of its transport, or of every transport, or a write of `ntp_armed`
by user space. `reqInit` is a call of `nvmet_req_init`; its hook runs if `seen`. -/
inductive TgtEvent where
  | arm (on : Bool)
  | reqInit (seen : Bool) (env : HookEnv) (a : ReqInitArgs)
  | exec (env : HookEnv) (req : KAddr) (transferLen : U32)
  | beIssue (env : HookEnv) (priv : U64)
  | beDone (env : HookEnv) (priv : U64)
  | complete (env : HookEnv) (req : KAddr)
  | tcp (env : HookEnv) (e : TgtTcpEvent)
  | rdma (env : HookEnv) (e : TgtRdmaEvent)

/-- One event at the target object of transport `tr`; it has no hooks on the other transport. -/
def tgtStep (tr : Transport) (f : Filter) (s : TgtState) : TgtEvent → TgtState
  | .arm on => { s with armed := on }
  | .reqInit seen env a => if seen then ntpTReqInit tr f s env a else s
  | .exec env req transferLen => onExec s env req transferLen
  | .beIssue env priv => ntpTBeIssue s env priv
  | .beDone env priv => ntpTBeDone s env priv
  | .complete env req => ntpTComplete s env req
  | .tcp env e => if tr = .tcp then e.run f s env else s
  | .rdma env e => if tr = .rdma then e.run f s env else s

/-- A run of a target object. -/
def tgtRun (tr : Transport) (f : Filter) (s : TgtState) (es : List TgtEvent) : TgtState :=
  es.foldl (tgtStep tr f) s

/-! ## Whose hook it is -/

/-- The `nvmet_req` whose record the hook of an event looks up. -/
def TgtRdmaEvent.key (s : TgtState) (env : HookEnv) : TgtRdmaEvent → Option U64
  | .recvDone _ => none
  | .recvDoneExit => none
  | .execute req _ _ => some req
  | .readDone req => some req
  | .queueRespFe req => some req
  | .queueRespFx req => some req
  | .queueRespKp req => some req
  | .queueRespKr _ => (ntpCtxGet s.respCtx env).map RespCtx.req
  | .sendDone req => some req

/-- The `nvmet_req` whose record the hook of an event looks up. -/
def TgtTcpEvent.key : TgtTcpEvent → Option U64
  | .copy _ _ _ => none
  | .copyDone a => a.cmd.map Subtype.val
  | .queueResp a => some a.req
  | .h2c req _ _ => some req
  | .sendmsg a => a.sndCmd.map Subtype.val

/-- The `nvmet_req` whose record the hook of an event looks up. -/
def TgtEvent.key (s : TgtState) : TgtEvent → Option U64
  | .arm _ => none
  | .reqInit _ _ a => some a.req
  | .exec _ req _ => some req
  | .beIssue _ priv => if priv = 0 then none else some priv
  | .beDone _ priv => if priv = 0 then none else some priv
  | .complete _ req => some req
  | .tcp _ e => e.key
  | .rdma env e => e.key s env

/-- The `nvmet_req` of the command that the hook of an event belongs to. It differs from the one that the
hook looks up only where the hook takes that from a context which another call left. -/
def TgtEvent.own (s : TgtState) : TgtEvent → Option U64
  | .tcp _ (.copyDone a) => a.own.map Subtype.val
  | .rdma _ (.queueRespKr own) => some own
  | e => e.key s

end Ntprof.Bpf
